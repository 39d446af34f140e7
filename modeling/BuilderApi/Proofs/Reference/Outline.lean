import BuilderApi.Proofs.Reference.Sections
import BuilderApi.Proofs.Reference.Written

/-!
# What the category index writes itself

The category index is taken apart like a page: its headings and its bullets are marked in text of
its own, and the categories, the names and the descriptions are copied. So what a description
contains cannot be taken for a heading or a bullet. The headings with the bullets up to the next one
are the sections (`BuilderApi.Reference.Written.outline_index`).
-/

namespace BuilderApi

namespace Reference

namespace Written

/-- What opens a section. -/
def sectionMark : String := "### "

/-- What opens the name of an entry. -/
def entryMark : String := "<a href=\""

/-- The bullet of an entry. -/
def entryLine (lead : String) (item : String × Entry) : Written :=
  [.own "- ", .own entryMark, .copied item.1, .own "\">", .copied lead, .own "<b>", .copied item.1,
    .own "</b></a> - ", .copied (item.2.desc.getD ""), .own "\n"]

/-- The heading and the bullets of a section. -/
def sectionText (lead category : String) (items : List (String × Entry)) : Written :=
  [.own "\n", .own sectionMark, .copied category, .own "\n\n"] ++ items.flatMap (entryLine lead)

/-- The index of a table. -/
def index (table : Table) (title lead : String) : Written :=
  [.own "## ", .copied title, .own "\n"] ++
    (sections table).flatMap fun field => sectionText lead field.1 field.2

/-- The names of the bullets. -/
def entryNames (pieces : Written) : List String := (sites entryMark pieces.chars).map copiedFront

/-- The headings, each with the names of the bullets that follow it. -/
def outline (pieces : Written) : List (String × List String) :=
  (sites sectionMark pieces.chars).map fun behind =>
    (copiedFront behind, (sites entryMark (upTo sectionMark behind)).map copiedFront)

/-! ### The pieces are the index -/

theorem text_sectionText (lead category : String) (items : List (String × Entry)) :
    text (sectionText lead category items) = Reference.sectionText lead category items := by
  have hline : ∀ item, text (entryLine lead item) = Reference.entryLine lead item := by
    intro item
    have hmark : "- " ++ entryMark = "- <a href=\"" := rfl
    unfold entryLine Reference.entryLine
    rw [← hmark]
    simp [String.append_assoc, -String.reduceAppend]
  have hmark : "\n" ++ sectionMark = "\n### " := rfl
  have hitems :
      items.map (fun item => text (entryLine lead item)) = items.map (Reference.entryLine lead) :=
    List.map_congr_left fun item _ => hline item
  unfold sectionText Reference.sectionText
  rw [← hmark]
  simp [text_flatMap, hitems, String.append_assoc, -String.reduceAppend]

/-- **The pieces of the index are the index.** -/
theorem text_index (table : Table) (title lead : String) :
    text (index table title lead) = Reference.index table title lead := by
  unfold index Reference.index
  rw [text_append, text_flatMap]
  simp only [text_sectionText, text_cons, text_own, text_copied, text_nil, String.append_empty,
    String.append_assoc]

/-! ### Headings and bullets -/

theorem isMark_sectionMark : IsMark sectionMark := ⟨by decide, by decide⟩

theorem isMark_entryMark : IsMark entryMark := ⟨by decide, by decide⟩

theorem clear_sectionMark_entryLines (lead : String) (items : List (String × Entry)) :
    Clear sectionMark (items.flatMap (entryLine lead)) := by
  refine Clear.flatMap (fun item => ?_) items
  exact Clear.own (Clear.own (Clear.copied _ (Clear.own (Clear.copied _ (Clear.own (Clear.copied _
    (Clear.own (Clear.copied _ (Clear.own Clear.nil)))))))))

theorem shows_entryLine (lead : String) (item : String × Entry) :
    Shows entryMark copiedFront (entryLine lead item) [item.1] := by
  have htail :
      Clear entryMark [.copied item.1, .own "\">", .copied lead, .own "<b>", .copied item.1,
      .own "</b></a> - ", .copied (item.2.desc.getD ""), .own "\n"] :=
    Clear.copied _ (Clear.own (Clear.copied _ (Clear.own (Clear.copied _ (Clear.own (Clear.copied _
      (Clear.own Clear.nil)))))))
  have hdash : Clear entryMark [.own "- "] := Clear.own Clear.nil
  exact (hdash.shows isMark_entryMark).append
    (isMark_entryMark.shows htail fun rest => copiedFront_copied item.1 _ (by decide) _)

theorem shows_entryLines (lead : String) (items : List (String × Entry)) :
    Shows entryMark copiedFront (items.flatMap (entryLine lead)) (items.map Prod.fst) := by
  rw [List.map_eq_flatMap]
  exact Shows.flatMap (shows_entryLine lead) items

theorem shows_sectionText (lead category : String) (items : List (String × Entry)) :
    Shows entryMark copiedFront (sectionText lead category items) (items.map Prod.fst) := by
  have hheading : Clear entryMark [.own "\n", .own sectionMark, .copied category, .own "\n\n"] :=
    Clear.own (Clear.own (Clear.copied _ (Clear.own Clear.nil)))
  exact (hheading.shows isMark_entryMark).append (shows_entryLines lead items)

/-- **The bullets of the index name the entries of its sections.** -/
theorem entryNames_index (table : Table) (title lead : String) :
    entryNames (index table title lead) = (sections table).flatMap fun field =>
    field.2.map Prod.fst := by
  have hhead : Clear entryMark [.own "## ", .copied title, .own "\n"] :=
    Clear.own (Clear.copied _ (Clear.own Clear.nil))
  have hsections : Shows entryMark copiedFront
      ((sections table).flatMap fun field => sectionText lead field.1 field.2)
      ((sections table).flatMap fun field => field.2.map Prod.fst) := by
    apply Shows.flatMap
    exact fun field => shows_sectionText lead field.1 field.2
  have hindex := (hhead.shows isMark_entryMark).append hsections
  rw [entryNames, index, hindex.eq, List.nil_append]

/-- In front of a further section stands nothing that shows an entry. -/
theorem exists_upTo_sectionMark (lead : String) (more : Fields (List (String × Entry))) :
    ∃ rest : Written, Clear entryMark rest ∧
      upTo sectionMark (chars (more.flatMap fun field => sectionText lead field.1 field.2)) =
        rest.chars := by
  cases more with
  | nil => exact ⟨[], Clear.nil, rfl⟩
  | cons first more =>
    have hblank : Clear sectionMark [.own "\n"] := Clear.own Clear.nil
    refine ⟨[.own "\n"], Clear.own Clear.nil, ?_⟩
    have hsplit : (first :: more).flatMap (fun field => sectionText lead field.1 field.2) =
        [.own "\n"] ++ .own sectionMark ::
        (.copied first.1 :: .own "\n\n" :: first.2.flatMap (entryLine lead) ++
          more.flatMap fun field => sectionText lead field.1 field.2) := by
      simp [sectionText]
    rw [hsplit, chars, List.flatMap_append, ← chars, ← chars,
      hblank.upTo_append isMark_sectionMark.ne_nil,
      isMark_sectionMark.upTo_cons, List.append_nil]

/-- **The headings of the index are its categories**, each with the bullets of its section. -/
theorem outline_index (table : Table) (title lead : String) :
    outline (index table title lead) = (sections table).map fun field =>
    (field.1, field.2.map Prod.fst) := by
  have hhead : Clear sectionMark [.own "## ", .copied title, .own "\n"] :=
    Clear.own (Clear.copied _ (Clear.own Clear.nil))
  rw [outline, index, hhead.sites_append isMark_sectionMark.ne_nil]
  generalize sections table = found
  induction found with
  | nil => rfl
  | cons first more ih =>
    obtain ⟨category, items⟩ := first
    let others : Written := more.flatMap fun field => sectionText lead field.1 field.2
    have hblank : Clear sectionMark [.own "\n"] := Clear.own Clear.nil
    have htail :
        Clear sectionMark (.copied category :: .own "\n\n" :: items.flatMap (entryLine lead)) :=
      Clear.copied _ (Clear.own (clear_sectionMark_entryLines lead items))
    have hsplit :
        ((category, items) :: more).flatMap (fun field => sectionText lead field.1 field.2) =
        [.own "\n"] ++ .own sectionMark ::
          ((.copied category :: .own "\n\n" :: items.flatMap (entryLine lead)) ++ others) := by
      simp [sectionText, others]
    rw [hsplit, hblank.sites_append isMark_sectionMark.ne_nil, isMark_sectionMark.sites_cons,
      htail.sites_append isMark_sectionMark.ne_nil, List.map_cons, ih, List.map_cons]
    refine congrArg (· :: _) (Prod.ext (copiedFront_copied category _ (by decide) _) ?_)
    -- the bullets in front of the next heading are those of this section
    obtain ⟨rest, hrest, hothers⟩ := exists_upTo_sectionMark lead more
    have hheading : Clear entryMark [.copied category, .own "\n\n"] :=
      Clear.copied _ (Clear.own Clear.nil)
    have hshows := ((hheading.shows isMark_entryMark).append (shows_entryLines lead items)).append
      (hrest.shows isMark_entryMark)
    rw [chars, List.flatMap_append, ← chars, ← chars,
      htail.upTo_append isMark_sectionMark.ne_nil, hothers]
    have hchars :
        chars (.copied category :: .own "\n\n" :: items.flatMap (entryLine lead)) ++ rest.chars =
        chars ([.copied category, .own "\n\n"] ++ items.flatMap (entryLine lead) ++ rest) := by
      simp [chars]
    rw [hchars, hshows.eq, List.nil_append, List.append_nil]

end Written

end Reference

end BuilderApi
