import BuilderApi.Files.Path
import Mathlib.Data.List.DropRight
import Mathlib.Data.String.Basic

/-!
# The parent of a path

A path is split at its slashes and put together again from its parts. The names that have to be
followed to its parent are those that have to be followed to the path itself, without the last one
(`BuilderApi.Path.exists_parent`); and the two start from the same place. That holds of paths whose
names are all plain ones; a dot or two dots name no entry of the directory that they are followed
from.
-/

namespace BuilderApi

/-! ### Parts between slashes -/

/-- There is always one part at least. -/
theorem splitSlashes_ne_nil (chars : List Char) : splitSlashes chars ≠ [] := by
  cases chars with
  | nil => simp [splitSlashes]
  | cons c chars =>
    rw [splitSlashes]
    split
    · simp
    · split <;> simp

/-- A slash separates the parts in front of it from those behind. -/
theorem splitSlashes_append (before after : List Char) :
    splitSlashes (before ++ '/' :: after) = splitSlashes before ++ splitSlashes after := by
  induction before with
  | nil => simp [splitSlashes]
  | cons c before ih =>
    rw [List.cons_append, splitSlashes, splitSlashes, ih]
    split
    · rfl
    · obtain ⟨part, parts, hparts⟩ := List.exists_cons_of_ne_nil (splitSlashes_ne_nil before)
      rw [hparts]
      rfl

/-- Without a slash there is one part. -/
theorem splitSlashes_eq_singleton {chars : List Char} (h : '/' ∉ chars) :
    splitSlashes chars = [chars] := by
  induction chars with
  | nil => rfl
  | cons c chars ih =>
    rw [List.mem_cons, not_or] at h
    rw [splitSlashes, if_neg (Ne.symm h.1), ih h.2]

/-- The parts are the text again, with slashes between them. -/
theorem intercalate_splitSlashes (chars : List Char) :
    ['/'].intercalate (splitSlashes chars) = chars := by
  induction chars with
  | nil => rfl
  | cons c chars ih =>
    obtain ⟨part, parts, hparts⟩ := List.exists_cons_of_ne_nil (splitSlashes_ne_nil chars)
    rw [hparts] at ih
    rw [splitSlashes, hparts]
    split
    · next hslash =>
      rw [hslash, ← ih]
      simp [List.intercalate]
    · rw [← ih]
      cases parts <;> simp [List.intercalate]

/-- Parts have no slash. -/
theorem slash_not_mem_splitSlashes (chars : List Char) :
    ∀ part ∈ splitSlashes chars, '/' ∉ part := by
  induction chars with
  | nil => simp [splitSlashes]
  | cons c chars ih =>
    obtain ⟨part, parts, hparts⟩ := List.exists_cons_of_ne_nil (splitSlashes_ne_nil chars)
    rw [hparts, List.forall_mem_cons] at ih
    rw [splitSlashes, hparts]
    split
    · exact List.forall_mem_cons.2 ⟨List.not_mem_nil, List.forall_mem_cons.2 ih⟩
    · next hc =>
      refine List.forall_mem_cons.2 ⟨fun hmem => ?_, ih.2⟩
      rcases List.mem_cons.1 hmem with heq | hmem
      · exact hc heq.symm
      · exact ih.1 hmem

/-- A slash separates the parts of a text as well. -/
theorem slashParts_append (before after : String) :
    slashParts (before ++ "/" ++ after) = slashParts before ++ slashParts after := by
  simp [slashParts, splitSlashes_append]

theorem slashParts_eq_singleton {text : String} (h : '/' ∉ text.toList) :
    slashParts text = [text] := by
  simp [slashParts, splitSlashes_eq_singleton h]

theorem slash_not_mem_slashParts (text : String) : ∀ part ∈ slashParts text, '/' ∉ part.toList := by
  intro part hpart
  obtain ⟨chars, hchars, rfl⟩ := List.mem_map.1 hpart
  rw [String.toList_ofList]
  exact slash_not_mem_splitSlashes _ chars hchars

/-- The parts of a text with slashes between them are the text again. -/
theorem intercalate_slashParts (text : String) : "/".intercalate (slashParts text) = text := by
  refine String.toList_inj.1 ?_
  rw [String.toList_intercalate, slashParts, List.map_map]
  simpa [Function.comp_def] using intercalate_splitSlashes text.toList

/-- Parts without slashes can be read back from the text that they make. -/
theorem slashParts_intercalate {parts : List String} (hne : parts ≠ [])
    (h : ∀ part ∈ parts, '/' ∉ part.toList) :
    slashParts ("/".intercalate parts) = parts := by
  induction parts with
  | nil => exact absurd rfl hne
  | cons part parts ih =>
    have hpart := slashParts_eq_singleton (h part List.mem_cons_self)
    cases parts with
    | nil => rw [String.intercalate_singleton, hpart]
    | cons next parts =>
      have hrest := ih (List.cons_ne_nil _ _) fun other hother =>
        h other (List.mem_cons_of_mem _ hother)
      rw [String.intercalate_cons_cons, slashParts_append, hpart, hrest, List.singleton_append]

/-- Between two runs of parts there is one slash more. -/
theorem intercalate_append {first second : List String} (hfirst : first ≠ [])
    (hsecond : second ≠ []) :
    "/".intercalate (first ++ second) =
      "/".intercalate first ++ ("/" ++ "/".intercalate second) := by
  induction first with
  | nil => exact absurd rfl hfirst
  | cons part first ih =>
    cases first with
    | nil =>
      obtain ⟨next, rest, rfl⟩ := List.exists_cons_of_ne_nil hsecond
      rw [List.singleton_append, String.intercalate_cons_cons, String.intercalate_singleton,
        String.append_assoc]
    | cons next rest =>
      have hrest := ih (List.cons_ne_nil _ _)
      rw [List.cons_append] at hrest
      rw [List.cons_append, List.cons_append, String.intercalate_cons_cons, hrest,
        String.intercalate_cons_cons]
      simp [String.append_assoc]

namespace Path

/-! ### Plain paths -/

/-- A path all of whose names are those of entries. -/
def IsPlain (path : String) : Prop := ∀ name ∈ steps path, name ≠ "." ∧ name ≠ ".."

/-- What an absolute path begins with. -/
def lead (path : String) : List String := if isAbsolute path then [""] else []

variable {path : String}

/-- An absolute path has an empty part in front of its first slash. -/
theorem isAbsolute_iff :
    isAbsolute path = true ↔ ∃ part rest, slashParts path = "" :: part :: rest := by
  unfold isAbsolute slashParts
  cases path.toList with
  | nil => simp [splitSlashes]
  | cons c chars =>
    obtain ⟨part, parts, hparts⟩ := List.exists_cons_of_ne_nil (splitSlashes_ne_nil chars)
    rw [splitSlashes, hparts]
    by_cases hc : c = '/'
    · simp [hc]
    · rw [if_neg hc]
      simp [hc, String.ext_iff]

/-- A plain path has no part that is a dot. -/
theorem ne_dot_of_mem_slashParts (hpath : IsPlain path) : ∀ part ∈ slashParts path, part ≠ "." := by
  rintro part hpart rfl
  exact (hpath "." (List.mem_filter.2 ⟨hpart, by decide⟩)).1 rfl

/-- A plain path starts with no dot, so its parts are what it begins with and its names. -/
theorem exists_splitLead (hpath : IsPlain path) :
    ∃ segments, splitLead path = (lead path, segments) ∧
      slashParts path = lead path ++ segments := by
  have hdot := ne_dot_of_mem_slashParts hpath
  unfold splitLead lead
  split
  · next rest hparts =>
    split
    · exact ⟨rest, rfl, hparts⟩
    · exact ⟨"" :: rest, rfl, hparts⟩
  · next rest hparts => exact absurd rfl (hdot "." (by rw [hparts]; exact List.mem_cons_self))
  · next hempty hdotted =>
    have habsolute : ¬isAbsolute path = true := fun h => by
      obtain ⟨part, rest, hparts⟩ := isAbsolute_iff.1 h
      exact hempty _ hparts
    rw [if_neg habsolute]
    exact ⟨slashParts path, rfl, rfl⟩

/-- The steps of a path are the segments behind its lead that are not empty. -/
theorem steps_eq_filter {segments : List String}
    (hparts : slashParts path = lead path ++ segments) :
    steps path = segments.filter (· ≠ "") := by
  unfold lead at hparts
  rw [steps, hparts, List.filter_append]
  split <;> simp

/-- Segments that are passed over are taken off the end. -/
theorem trimEnd_eq (segments : List String) :
    trimEnd segments = segments.rdropWhile fun segment => segment == "" || segment == "." := rfl

/-- What is trimmed off the end is empty segments. -/
theorem exists_trimEnd {segments : List String} (hdot : ∀ segment ∈ segments, segment ≠ ".") :
    ∃ blanks, segments = trimEnd segments ++ blanks ∧ ∀ segment ∈ blanks, segment = "" := by
  refine ⟨_, (List.rdropWhile_append_rtakeWhile).symm, fun segment hsegment => ?_⟩
  have hpassed := List.mem_rtakeWhile_imp hsegment
  have hmem : segment ∈ segments := List.rtakeWhile_suffix _ _ |>.subset hsegment
  simpa [hdot segment hmem] using hpassed

/-- What is left ends with a proper segment. -/
theorem getLast_trimEnd {segments : List String} (hne : trimEnd segments ≠ []) :
    (trimEnd segments).getLast hne ≠ "" := by
  have hlast := List.rdropWhile_last_not _ _ hne
  simp only [Bool.or_eq_true, beq_iff_eq, not_or] at hlast
  exact hlast.1

/-- Trimming takes no proper segment away. -/
theorem filter_trimEnd {segments : List String} (hdot : ∀ segment ∈ segments, segment ≠ ".") :
    (trimEnd segments).filter (· ≠ "") = segments.filter (· ≠ "") := by
  obtain ⟨blanks, hsegments, hblanks⟩ := exists_trimEnd hdot
  have hnone : blanks.filter (· ≠ "") = [] := List.filter_eq_nil_iff.2 fun segment hsegment => by
    simp [hblanks segment hsegment]
  conv_rhs => rw [hsegments, List.filter_append, hnone, List.append_nil]

/-- Segments make a path with slashes between them. -/
theorem ofSegments_eq {segments : List String} (h : segments ≠ [""]) :
    ofSegments segments = "/".intercalate segments := by
  unfold ofSegments
  split
  · exact absurd rfl h
  · rfl

/-- The steps of a path that segments make are the segments that are not empty. -/
theorem steps_ofSegments {segments : List String} (h : ∀ segment ∈ segments, '/' ∉ segment.toList) :
    steps (ofSegments segments) = segments.filter (· ≠ "") := by
  unfold ofSegments
  split
  · simp [steps, slashParts, splitSlashes]
  · by_cases hne : segments = []
    · subst hne
      simp [steps, slashParts, splitSlashes]
    · rw [steps, slashParts_intercalate hne h]

/-- A path without steps has nothing above it. -/
theorem parent?_eq_none (hpath : IsPlain path) (hsteps : steps path = []) :
    parent? path = none := by
  obtain ⟨segments, hsplit, hparts⟩ := exists_splitLead hpath
  have hempty : ∀ segment ∈ segments, segment = "" := by
    rw [steps_eq_filter hparts, List.filter_eq_nil_iff] at hsteps
    simpa using hsteps
  have htrim : trimEnd segments = [] := by
    rw [trimEnd_eq, List.rdropWhile_eq_nil_iff]
    intro segment hsegment
    simp [hempty segment hsegment]
  have hlead : lead path ≠ ["."] := by
    unfold lead
    split <;> simp
  rw [parent?, hsplit]
  simp only [htrim, if_neg hlead]

/-- The parent of a path, and what the two have in common. -/
structure IsParent (parent path : String) (before : List String) : Prop where
  /-- It is the parent. -/
  parent_eq : parent? path = some parent
  /-- The names that lead to it. -/
  steps_eq : steps parent = before
  /-- They are followed from the same place. -/
  isAbsolute_eq : isAbsolute parent = isAbsolute path
  /-- The path goes on behind it. -/
  exists_behind : ∃ behind, path = parent ++ behind
  /-- Without names it is the root or the empty path. -/
  top : before = [] → parent = "" ∨ parent = "/"

/-- What is above a plain path is plain. -/
theorem IsParent.isPlain {parent : String} {before : List String} {last : String}
    (h : IsParent parent path before) (hpath : IsPlain path)
    (hsteps : steps path = before ++ [last]) : IsPlain parent := by
  intro name hname
  rw [h.steps_eq] at hname
  exact hpath name (by rw [hsteps]; exact List.mem_append_left _ hname)

theorem exists_append_of_isAbsolute (h : isAbsolute path = true) :
    ∃ behind, path = "/" ++ behind := by
  unfold isAbsolute at h
  cases hchars : path.toList with
  | nil => simp [hchars] at h
  | cons c chars =>
    rw [hchars] at h
    obtain rfl : c = '/' := by simpa using h
    exact ⟨String.ofList chars, String.toList_inj.1 (by simp [hchars])⟩

/-- A prefix of the parts of a path is an absolute path if the path is. -/
theorem isAbsolute_intercalate {first second : List String}
    (hparts : slashParts path = first ++ second) (hfirst : first ≠ [] ∧ first ≠ [""]) :
    isAbsolute ("/".intercalate first) = isAbsolute path := by
  have hslash : ∀ part ∈ first, '/' ∉ part.toList := fun part hpart =>
    slash_not_mem_slashParts path part (by rw [hparts]; exact List.mem_append_left _ hpart)
  rw [Bool.eq_iff_iff, isAbsolute_iff, isAbsolute_iff,
    slashParts_intercalate hfirst.1 hslash, hparts]
  rcases first with _ | ⟨part, _ | ⟨next, rest⟩⟩
  · exact absurd rfl hfirst.1
  · have hpart : part ≠ "" := fun h => hfirst.2 (by rw [h])
    simp [hpart]
  · simp

/-- What is kept of a path for its parent, and what is taken off: the last name with the blanks on
both sides of it. -/
structure IsCut (path : String) (before kept cut : List String) : Prop where
  /-- The two, behind what the path begins with, are the path. -/
  parts_eq : slashParts path = lead path ++ kept ++ cut
  /-- Something is taken off. -/
  cut_ne_nil : cut ≠ []
  /-- The parent is what is kept. -/
  parent_eq : parent? path = some (ofSegments (lead path ++ kept))
  /-- These are the names that are kept. -/
  filter_kept : kept.filter (· ≠ "") = before
  /-- What is kept ends with a name. -/
  getLast_ne : ∀ h : kept ≠ [], kept.getLast h ≠ ""

/-- A plain path is cut in front of its last step. -/
theorem exists_cut (hpath : IsPlain path) {before : List String} {last : String}
    (hsteps : steps path = before ++ [last]) : ∃ kept cut, IsCut path before kept cut := by
  obtain ⟨segments, hsplit, hparts⟩ := exists_splitLead hpath
  have hdot : ∀ segment ∈ segments, segment ≠ "." := fun segment hsegment =>
    ne_dot_of_mem_slashParts hpath segment (by rw [hparts]; exact List.mem_append_right _ hsegment)
  rw [steps_eq_filter hparts, ← filter_trimEnd hdot] at hsteps
  have hne : trimEnd segments ≠ [] := fun h => by simp [h] at hsteps
  -- the last segment that is not passed over is the last name
  have hlast := getLast_trimEnd hne
  have hsnoc := List.dropLast_append_getLast hne
  generalize hcore : (trimEnd segments).dropLast = core at hsnoc
  generalize (trimEnd segments).getLast hne = final at hlast hsnoc
  obtain ⟨blanks, hsegments, -⟩ := exists_trimEnd hdot
  rw [← hsnoc] at hsteps hsegments
  have hfinal : [final].filter (· ≠ "") = [final] := by simp [hlast]
  rw [List.filter_append, hfinal] at hsteps
  have hbefore : core.filter (· ≠ "") = before := (List.append_inj' hsteps rfl).1
  -- what stands in front of it is kept, up to the blanks at its end
  have hdotCore : ∀ segment ∈ core, segment ≠ "." := fun segment hsegment =>
    hdot segment (by rw [hsegments]; exact List.mem_append_left _ (List.mem_append_left _ hsegment))
  obtain ⟨blanks', hcoreEq, -⟩ := exists_trimEnd hdotCore
  refine ⟨trimEnd core, blanks' ++ [final] ++ blanks, ?_, by simp, ?_, ?_,
    fun h => getLast_trimEnd h⟩
  · rw [hparts, hsegments]
    conv_lhs => rw [hcoreEq]
    simp
  · rw [parent?, hsplit]
    simp only [← hcore]
  · rw [filter_trimEnd hdotCore, hbefore]

namespace IsCut

variable {before kept cut : List String}

/-- What is kept of a path is not empty. -/
theorem ne_blank (h : IsCut path before kept cut) (hkept : kept ≠ []) :
    lead path ++ kept ≠ [] ∧ lead path ++ kept ≠ [""] := by
  have hlast := h.getLast_ne hkept
  unfold lead
  split
  · simpa using hkept
  · refine ⟨hkept, fun hblank => ?_⟩
    simp only [List.nil_append] at hblank
    subst hblank
    exact hlast rfl

/-- Where nothing is kept, the parent is what the path begins with. -/
theorem exists_parent_top (h : IsCut path before [] cut) :
    ∃ parent, IsParent parent path before := by
  have hbefore : before = [] := h.filter_kept.symm
  have hparent := h.parent_eq
  rw [List.append_nil, lead] at hparent
  by_cases habsolute : isAbsolute path = true
  · rw [if_pos habsolute] at hparent
    exact ⟨"/", hparent, hbefore ▸ rfl, habsolute.symm, exists_append_of_isAbsolute habsolute,
      fun _ => .inr rfl⟩
  · rw [if_neg habsolute] at hparent
    rw [Bool.not_eq_true] at habsolute
    exact ⟨"", hparent, hbefore ▸ rfl, habsolute.symm, ⟨path, String.empty_append.symm⟩,
      fun _ => .inl rfl⟩

/-- What is kept of a path is its parent, with all steps but the last. -/
theorem isParent (h : IsCut path before kept cut) (hkept : kept ≠ []) :
    IsParent (ofSegments (lead path ++ kept)) path before := by
  have hblank := h.ne_blank hkept
  have hslash : ∀ part ∈ lead path ++ kept, '/' ∉ part.toList := fun part hpart =>
    slash_not_mem_slashParts path part (by rw [h.parts_eq]; exact List.mem_append_left _ hpart)
  refine ⟨h.parent_eq, ?_, ?_, ?_, fun hempty => ?_⟩
  · rw [steps_ofSegments hslash, List.filter_append, h.filter_kept]
    unfold lead
    split <;> simp
  · rw [ofSegments_eq hblank.2]
    exact isAbsolute_intercalate h.parts_eq hblank
  · rw [ofSegments_eq hblank.2]
    have hjoined := intercalate_append hblank.1 h.cut_ne_nil
    rw [← h.parts_eq, intercalate_slashParts] at hjoined
    exact ⟨_, hjoined⟩
  · have hnone := h.filter_kept
    rw [hempty, List.filter_eq_nil_iff] at hnone
    exact absurd (by simpa using hnone _ (List.getLast_mem hkept)) (h.getLast_ne hkept)

end IsCut

/-- **The parent of a path is followed by one name less**, from the same place. -/
theorem exists_parent (hpath : IsPlain path) {before : List String} {last : String}
    (hsteps : steps path = before ++ [last]) : ∃ parent, IsParent parent path before := by
  obtain ⟨kept, cut, hcut⟩ := exists_cut hpath hsteps
  by_cases hkept : kept = []
  · subst hkept
    exact hcut.exists_parent_top
  · exact ⟨_, hcut.isParent hkept⟩

end Path

end BuilderApi
