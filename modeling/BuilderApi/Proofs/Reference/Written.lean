import BuilderApi.Proofs.Table.Plan
import BuilderApi.Reference.Page
import Mathlib.Data.List.Infix

/-!
# What a page writes itself

A page mixes text of its own with text that it copies from the table and the schema, and a
description may contain anything, also what looks like the overview or an anchor of a member. So a
page is taken apart into **pieces** that remember where they come from, and its characters with them
(`BuilderApi.Reference.Written.text_page`: together they are the page).

A mark *stands* in a page where all its characters are the page's own. The overview marks its
bullets and every member block marks its anchor, and the name behind such a mark is what was copied
there. Since no other piece of own text touches the marks, the bullets and the anchors are those of
the members, each once, in the order of their names (`BuilderApi.Reference.Written.bullets_page`,
`BuilderApi.Reference.Written.anchors_page`).
-/

namespace BuilderApi

namespace Reference

/-- A piece of a page. -/
inductive Piece where
  /-- Text of the page's own. -/
  | own (text : String)
  /-- Text copied from the table or the schema. -/
  | copied (text : String)

/-- The text of a piece. -/
def Piece.text : Piece → String
  | .own text | .copied text => text

/-- The characters of a piece, each with whether it is the page's own. -/
def Piece.chars : Piece → List (Char × Bool)
  | .own text => text.toList.map (·, true)
  | .copied text => text.toList.map (·, false)

/-- A text in pieces. -/
abbrev Written := List Piece

namespace Written

/-- The text of all pieces. -/
def text (pieces : Written) : String := String.join (pieces.map Piece.text)

/-- The characters of all pieces. -/
def chars (pieces : Written) : List (Char × Bool) := pieces.flatMap Piece.chars

@[simp] theorem text_nil : text [] = "" := rfl

@[simp] theorem text_cons (piece : Piece) (pieces : Written) :
    text (piece :: pieces) = piece.text ++ text pieces := by
  simp [text, String.join_cons]

@[simp] theorem text_append (a b : Written) : text (a ++ b) = text a ++ text b := by
  induction a with
  | nil => simp
  | cons piece rest ih => simp [ih, String.append_assoc]

@[simp] theorem text_own (s : String) : (Piece.own s).text = s := rfl

@[simp] theorem text_copied (s : String) : (Piece.copied s).text = s := rfl

/-- What is written item by item has the text of the items, joined. -/
theorem text_flatMap {α : Type} (f : α → Written) (items : List α) :
    text (items.flatMap f) = String.join (items.map fun item => text (f item)) := by
  induction items with
  | nil => rfl
  | cons item rest ih => simp [ih, String.join_cons]

/-- The characters of the pieces are those of the text. -/
theorem chars_map_fst (pieces : Written) : pieces.chars.map Prod.fst = (text pieces).toList := by
  induction pieces with
  | nil => rfl
  | cons piece rest ih =>
    rw [chars] at ih ⊢
    cases piece <;> simp [Piece.chars, ih, Function.comp_def]

/-! ### A page in pieces -/

/-- The name of a constructor argument. -/
def binding : ArgBinding → Written
  | .positional prop | .withDefault prop _ => [.copied prop]
  | .hidden field _ => [.copied (without "_" field)]
  | .spread prop | .merge prop => [.own "...", .copied prop]

/-- The arguments of a constructor. -/
def arguments : Option (List ArgBinding) → Written
  | some bindings => List.intercalate [.own ", "] (bindings.map binding)
  | none => [.own "...values"]

/-- The arguments of a member. -/
def memberArguments (member : Member) : Written :=
  match member.kind with
  | .property _ true => [.own "...value"]
  | .property _ false => [.own "value"]
  | .extension ext =>
    match ext.binding with
    | .copy => []
    | .merge _ prop | .spread prop => [.own "...", .copied prop]
    | .plain prop => [.copied (without "_" prop)]
  | .delegation _ | .invocation _ => [.own "...values"]

/-- A word set as code. -/
def code (pieces : Written) : Written := .own "<code>" :: pieces ++ [.own "</code>"]

/-- The bullet of a case. -/
def caseLine (prop : Option String) (c : DocCase) : Written :=
  let target := match prop with
    | some p => [.copied p, .own ".", .copied c.key]
    | none => [.copied c.key]
  [.own "- If the argument is ", .own (article c.check.name), .own " "] ++
    code [.own (caseType c)] ++ [.own ", sets the "] ++ code target ++ [.own " property.\n"]

/-- The last bullet of a dispatch paragraph. -/
def otherwiseLine : Option String → Written
  | some p => .own "- Otherwise, sets the " :: code [.copied p] ++ [.own " property."]
  | none => [.own "- Otherwise, sets the properties defined on the input argument(s), if provided."]

/-- What a dispatch table does. -/
def dispatchLines (prop : Option String) (table : TypeTable) : Written :=
  .own dispatchHeading :: table.docCases.flatMap (caseLine prop) ++ otherwiseLine prop

/-- The description of a member. -/
def memberDescription (member : Member) (shape : Properties) : Option Written :=
  let desc := member.desc.or ((shape.get? member.name).bind Json.description)
  match member.kind with
  | .extension ext =>
    match ext.types with
    | none => desc.map fun d => [.copied d]
    | some table =>
      let prop := some (ext.binding.prop?.getD member.name)
      match desc with
      | some d => some (.copied d :: .own "\n" :: .own "\n" :: dispatchLines prop table)
      | none => some (dispatchLines prop table)
  | _ => desc.map fun d => [.copied d]

/-- What opens a bullet of the overview. -/
def bulletMark : String := "* <a href=\"#"

/-- What opens the block of a member. -/
def anchorMark : String := "<a id=\""

/-- What opens the arguments in the block of a member. -/
def argumentsMark : String := "</b>(<em>"

/-- What closes them. -/
def endMark : String := "</em>)"

/-- The bullet of a member. -/
def overviewLine (member : Member) : Written :=
  [.own bulletMark, .copied member.name, .own "\">", .copied member.name, .own "</a>\n"]

/-- What stands between the name in an anchor and the arguments of the member. -/
def anchorTail (name : String) (member : Member) : Written :=
  [.own "\" href=\"#", .copied member.name, .own "\">#</a>\n<em>", .copied name, .own "</em>.<b>",
    .copied member.name]

/-- The anchor and the signature of a member. -/
def anchorLines (name : String) (member : Member) : Written :=
  .own anchorMark :: .copied member.name :: anchorTail name member ++
    .own argumentsMark :: memberArguments member ++ [.own endMark, .own "\n"]

/-- What follows the signature. -/
def describedLines (shape : Properties) (member : Member) : Written :=
  (match memberDescription member shape with
    | some desc => .own "\n" :: desc ++ [.own "\n"]
    | none => []) ++ [.own "\n"]

/-- The block of a member. -/
def memberBlock (name : String) (shape : Properties) (member : Member) : Written :=
  anchorLines name member ++ describedLines shape member

/-- The overview and the blocks of the members, if there are any. -/
def memberSections (name : String) (shape : Properties) (members : List Member) : Written :=
  if members.isEmpty then []
  else
    [.own "## <code>", .copied name, .own "</code> Method Overview\n\n"] ++
      members.flatMap overviewLine ++
      [.own "\n", .own "## <code>", .copied name, .own "</code> API Reference\n\n"] ++
      members.flatMap (memberBlock name shape)

/-- The signature, the description, and what the constructor does with its arguments. -/
def pageHead (lead name : String) (entry : Entry) : Written :=
  [.copied lead, .own "<b>", .copied name, .own "</b>(<em>"] ++ arguments entry.args ++
    [.own "</em>)\n"] ++ (match entry.desc with
      | some desc => [.own "\n", .copied desc]
      | none => []) ++
    (match (entry.method?.bind (·.typeTable 0)) with
      | some table => .own "\n" :: .own "\n" :: dispatchLines none table
      | none => []) ++ [.own "\n"]

/-- The rest of a page. -/
def pageBody (name : String) (shape : Properties) : Entry → Written
  | .external _ => []
  | .method spec =>
    match spec.ctr with
    | some proxy =>
      [.own "Returns a ", .own "[", .copied proxy.call, .own "](", .copied proxy.call, .own ")",
        .own " instance.\n"]
    | none => .own "\n" :: memberSections name shape (Member.sorted spec shape)

/-- The page of an entry. -/
def page (name : String) (entry : Entry) (shape : Properties) (lead : String) : Written :=
  pageHead lead name entry ++ pageBody name shape entry

/-! ### The pieces are the page -/

/-- Separators are set between the texts as they are between the pieces. -/
theorem text_intercalate (separator : Written) (items : List Written) :
    text (List.intercalate separator items) = (text separator).intercalate (items.map text) := by
  induction items with
  | nil => rfl
  | cons item rest ih =>
    cases rest with
    | nil => simp
    | cons next rest =>
      simp [List.intercalate_cons_cons, String.intercalate_cons_cons, ih, String.append_assoc]

/-- The arguments in pieces have the text that the page gives them. -/
theorem text_arguments (args : Option (List ArgBinding)) :
    text (arguments args) = Reference.arguments args := by
  cases args with
  | none => simp [arguments, Reference.arguments]
  | some bindings =>
    have hbinding : ∀ b : ArgBinding, text (binding b) = b.displayName := by
      intro b
      cases b <;> simp [binding, ArgBinding.displayName]
    simp [arguments, Reference.arguments, text_intercalate, hbinding, Function.comp_def]

/-- The arguments of a member in pieces have the text that the page gives them. -/
theorem text_memberArguments (member : Member) :
    text (memberArguments member) = Reference.memberArguments member := by
  unfold memberArguments Reference.memberArguments
  cases member.kind with
  | property schema array => cases array <;> simp
  | extension ext =>
    cases hbinding : ext.binding <;> simp [hbinding, ExtBinding.displayName]
  | _ => simp

/-- A dispatch case in pieces has the text of its line. -/
theorem text_caseLine (prop : Option String) (c : DocCase) :
    text (caseLine prop c) = Reference.caseLine prop c := by
  unfold caseLine Reference.caseLine
  cases prop <;> simp [code, BuilderApi.code, String.append_assoc, -String.reduceAppend]

theorem text_dispatchLines (prop : Option String) (table : TypeTable) :
    text (dispatchLines prop table) = Reference.dispatchLines prop table := by
  have hotherwise : text (otherwiseLine prop) = Reference.otherwiseLine prop := by
    unfold otherwiseLine Reference.otherwiseLine
    cases prop <;> simp [code, BuilderApi.code, String.append_assoc, -String.reduceAppend]
  unfold dispatchLines Reference.dispatchLines
  simp [text_flatMap, text_caseLine, hotherwise, String.append_assoc, -String.reduceAppend]

theorem map_text_memberDescription (member : Member) (shape : Properties) :
    (memberDescription member shape).map text = Reference.memberDescription member shape := by
  unfold memberDescription Reference.memberDescription
  generalize member.desc.or ((Fields.get? shape member.name).bind Json.description) = desc
  cases member.kind with
  | extension ext =>
    cases htypes : ext.types with
    | none => cases desc <;> simp [htypes]
    | some table =>
      cases desc <;> simp [htypes, text_dispatchLines, dispatchParagraph, String.append_assoc]
  | _ => cases desc <;> simp

/-- The block of a member in pieces has the text that the page gives it. -/
theorem text_memberBlock (name : String) (shape : Properties) (member : Member) :
    text (memberBlock name shape member) = Reference.memberBlock name shape member := by
  rw [memberBlock, describedLines, Reference.memberBlock, ← map_text_memberDescription]
  have hend : endMark ++ "\n" = "</em>)\n" := rfl
  have hanchor : text (anchorLines name member) = Reference.anchorLines name member := by
    unfold anchorLines anchorTail Reference.anchorLines anchorMark argumentsMark
    rw [← hend]
    simp [text_memberArguments, String.append_assoc, -String.reduceAppend]
  cases memberDescription member shape <;> simp [hanchor, String.append_assoc]

/-- The sections of all members in pieces have the text that the page gives them. -/
theorem text_memberSections (name : String) (shape : Properties) (members : List Member) :
    text (memberSections name shape members) = Reference.memberSections name shape members := by
  have hline : ∀ member, text (overviewLine member) = Reference.overviewLine member := by
    intro member
    unfold overviewLine Reference.overviewLine bulletMark
    simp [String.append_assoc, -String.reduceAppend]
  unfold memberSections Reference.memberSections
  split
  · rfl
  · simp [text_flatMap, hline, text_memberBlock, String.append_assoc, -String.reduceAppend]

/-- **The pieces of a page are the page.** -/
theorem text_page (name : String) (entry : Entry) (shape : Properties) (lead : String) :
    text (page name entry shape lead) = Reference.page name entry shape lead := by
  have hhead : text (pageHead lead name entry) = Reference.pageHead lead name entry := by
    unfold pageHead Reference.pageHead
    cases entry.desc <;> cases entry.method?.bind (·.typeTable 0) <;>
      simp [text_arguments, text_dispatchLines, dispatchParagraph, String.append_assoc]
  have hbody : text (pageBody name shape entry) = Reference.pageBody name shape entry := by
    cases entry with
    | external spec => rfl
    | method spec =>
      cases hctr : spec.ctr <;>
        simp [pageBody, Reference.pageBody, hctr, text_memberSections, link, String.append_assoc]
  rw [page, text_append, hhead, hbody, Reference.page]

/-! ### Where a mark stands -/

/-- Does the mark stand here, in own characters? -/
def standsAt (mark : String) (chars : List (Char × Bool)) : Bool :=
  (mark.toList.map fun c => (c, true)).isPrefixOf chars

/-- What stands behind each place where the mark stands. -/
def sites (mark : String) : List (Char × Bool) → List (List (Char × Bool))
  | [] => []
  | c :: rest =>
    if standsAt mark (c :: rest) then (c :: rest).drop mark.toList.length :: sites mark rest
    else sites mark rest

/-- What stands in front of the first place where the mark stands. -/
def upTo (mark : String) : List (Char × Bool) → List (Char × Bool)
  | [] => []
  | c :: rest => if standsAt mark (c :: rest) then [] else c :: upTo mark rest

/-- The text of some characters. -/
def ofChars (chars : List (Char × Bool)) : String := String.ofList (chars.map Prod.fst)

/-- The copied characters in front. -/
def copiedFront (chars : List (Char × Bool)) : String := ofChars (chars.takeWhile fun c => !c.2)

/-- The names of the bullets of a page. -/
def bullets (pieces : Written) : List String := (sites bulletMark pieces.chars).map copiedFront

/-- The names of the anchors of a page, each with the arguments that follow it. -/
def anchors (pieces : Written) : List (String × String) :=
  (sites anchorMark pieces.chars).map fun behind =>
    (copiedFront behind, ofChars (upTo endMark ((sites argumentsMark behind).headD [])))

/-! ### Own text that keeps clear of a mark -/

/-- The mark stands nowhere in the text, and no end of the text begins it. -/
def clear (mark : List Char) : List Char → Bool
  | [] => true
  | c :: rest => !mark.isPrefixOf (c :: rest) && !(c :: rest).isPrefixOf mark && clear mark rest

/-- All own text of the pieces is clear of the mark. -/
def Clear (mark : String) (pieces : Written) : Prop :=
  ∀ text, .own text ∈ pieces → clear mark.toList text.toList = true

/-- The own characters of a text. -/
abbrev ownChars (text : List Char) : List (Char × Bool) := text.map fun c => (c, true)

/-- Characters that stand together begin alike once their origin is forgotten. -/
theorem isPrefixOf_of_ownChars {a b : List Char} (h : ownChars a <+: ownChars b) :
    a.isPrefixOf b = true := by
  have := h.map Prod.fst
  simpa [ownChars, List.map_map, Function.comp_def] using List.isPrefixOf_iff_prefix.2 this

/-- No mark begins in a text of the page's own that is clear of it, whatever follows. -/
theorem not_standsAt_of_clear {mark : String} {c : Char} {text : List Char}
    (rest : List (Char × Bool)) (h : clear mark.toList (c :: text) = true) :
    standsAt mark (ownChars (c :: text) ++ rest) = false := by
  rw [clear, Bool.and_eq_true, Bool.and_eq_true, Bool.not_eq_true', Bool.not_eq_true'] at h
  obtain ⟨⟨hmark, htext⟩, -⟩ := h
  rw [standsAt, Bool.eq_false_iff]
  intro hprefix
  -- a mark that reached beyond the text would begin with an end of it
  rcases List.prefix_or_prefix_of_prefix (List.isPrefixOf_iff_prefix.1 hprefix)
    (List.prefix_append (ownChars (c :: text)) rest) with h | h
  · rw [isPrefixOf_of_ownChars h] at hmark
    cases hmark
  · rw [isPrefixOf_of_ownChars h] at htext
    cases htext

/-- A mark never begins with a copied character. -/
theorem not_standsAt_copied {mark : String} (hmark : mark.toList ≠ []) (c : Char)
    (rest : List (Char × Bool)) :
    standsAt mark ((c, false) :: rest) = false := by
  cases h : mark.toList with
  | nil => exact absurd h hmark
  | cons m ms => simp [standsAt, h, List.isPrefixOf]

theorem clear_tail {mark : List Char} {c : Char} {text : List Char}
    (h : clear mark (c :: text) = true) :
    clear mark text = true := by
  rw [clear, Bool.and_eq_true] at h
  exact h.2

/-- A clear text of the page's own adds no place to those of a mark behind it. -/
theorem sites_ownChars {mark : String} {text : List Char} (h : clear mark.toList text = true)
    (rest : List (Char × Bool)) : sites mark (ownChars text ++ rest) = sites mark rest := by
  induction text with
  | nil => rfl
  | cons c text ih =>
    have hc := not_standsAt_of_clear rest h
    rw [ownChars, List.map_cons, List.cons_append] at hc ⊢
    rw [sites, hc]
    exact ih (clear_tail h)

/-- The search for a mark runs through a clear text. -/
theorem upTo_ownChars {mark : String} {text : List Char} (h : clear mark.toList text = true)
    (rest : List (Char × Bool)) :
    upTo mark (ownChars text ++ rest) = ownChars text ++ upTo mark rest := by
  induction text with
  | nil => rfl
  | cons c text ih =>
    have hc := not_standsAt_of_clear rest h
    rw [ownChars, List.map_cons, List.cons_append] at hc ⊢
    rw [upTo, hc]
    exact congrArg (List.cons _) (ih (clear_tail h))

theorem Clear.of_cons {mark : String} {piece : Piece} {pieces : Written}
    (h : Clear mark (piece :: pieces)) :
    Clear mark pieces := fun text htext => h text (List.mem_cons_of_mem _ htext)

/-- **Clear pieces hide no mark.** -/
theorem Clear.sites_append {mark : String} (hmark : mark.toList ≠ []) {pieces : Written}
    (h : Clear mark pieces) (rest : Written) :
    sites mark (chars (pieces ++ rest)) = sites mark rest.chars := by
  induction pieces with
  | nil => rfl
  | cons piece pieces ih =>
    rw [List.cons_append, chars, List.flatMap_cons, ← chars]
    cases piece with
    | own text => exact (sites_ownChars (h text (by simp)) _).trans (ih h.of_cons)
    | copied text =>
      refine Eq.trans ?_ (ih h.of_cons)
      rw [Piece.chars]
      induction text.toList with
      | nil => rfl
      | cons c text iht =>
        rw [List.map_cons, List.cons_append, sites, not_standsAt_copied hmark]
        exact iht

/-- The search for a mark runs through clear pieces into what follows them. -/
theorem Clear.upTo_append {mark : String} (hmark : mark.toList ≠ []) {pieces : Written}
    (h : Clear mark pieces) (rest : List (Char × Bool)) :
    upTo mark (pieces.chars ++ rest) = pieces.chars ++ upTo mark rest := by
  induction pieces with
  | nil => rfl
  | cons piece pieces ih =>
    rw [chars, List.flatMap_cons, ← chars, List.append_assoc, List.append_assoc, ← ih h.of_cons]
    cases piece with
    | own text => exact upTo_ownChars (h text (by simp)) _
    | copied text =>
      rw [Piece.chars]
      induction text.toList with
      | nil => rfl
      | cons c text iht =>
        rw [List.map_cons, List.cons_append, upTo, not_standsAt_copied hmark]
        exact congrArg (List.cons _) iht

/-- A mark that is not empty and does not overlap itself. -/
structure IsMark (mark : String) : Prop where
  ne_nil : mark.toList ≠ []
  tail : clear mark.toList mark.toList.tail = true

/-- Inside of a bullet no other one begins. -/
theorem isMark_bulletMark : IsMark bulletMark := ⟨by decide, by decide⟩

theorem isMark_anchorMark : IsMark anchorMark := ⟨by decide, by decide⟩

theorem isMark_argumentsMark : IsMark argumentsMark := ⟨by decide, by decide⟩

theorem isMark_endMark : IsMark endMark := ⟨by decide, by decide⟩

/-- A mark of the page's own stands where it is written. -/
theorem standsAt_self (mark : String) (rest : List (Char × Bool)) :
    standsAt mark (ownChars mark.toList ++ rest) = true :=
  List.isPrefixOf_iff_prefix.2 (List.prefix_append _ _)

/-- A mark stands where it was written. -/
theorem IsMark.sites_cons {mark : String} (h : IsMark mark) (rest : Written) :
    sites mark (chars (.own mark :: rest)) = rest.chars :: sites mark rest.chars := by
  have hself := standsAt_self mark rest.chars
  have hchars : chars (.own mark :: rest) = ownChars mark.toList ++ rest.chars := rfl
  have htail := sites_ownChars h.tail rest.chars
  -- the first character finds the mark, and no other one of it does
  have hdrop : (ownChars mark.toList ++ rest.chars).drop mark.toList.length = rest.chars := by
    rw [List.drop_left']
    simp
  rw [hchars]
  cases hmark : mark.toList with
  | nil => exact absurd hmark h.ne_nil
  | cons c text =>
    rw [hmark] at hself hdrop htail
    rw [ownChars, List.map_cons, List.cons_append] at hself hdrop ⊢
    rw [sites, hself, if_pos rfl, hmark, hdrop]
    exact congrArg (List.cons _) htail

/-- In front of a mark there is nothing. -/
theorem IsMark.upTo_cons {mark : String} (h : IsMark mark) (rest : Written) :
    upTo mark (chars (.own mark :: rest)) = [] := by
  have hself := standsAt_self mark rest.chars
  have hchars : chars (.own mark :: rest) = ownChars mark.toList ++ rest.chars := rfl
  rw [hchars]
  cases hmark : mark.toList with
  | nil => exact absurd hmark h.ne_nil
  | cons c text =>
    rw [hmark, ownChars, List.map_cons, List.cons_append] at hself
    rw [ownChars, List.map_cons, List.cons_append, upTo, hself, if_pos rfl]

/-! ### No other own text touches the marks -/

theorem Clear.nil {mark : String} : Clear mark [] := by simp [Clear]

/-- A text of the page's own has to be clear of the mark. -/
theorem Clear.own {mark text : String} {pieces : Written} (h : Clear mark pieces)
    (htext : clear mark.toList text.toList = true := by decide) :
    Clear mark (.own text :: pieces) := by
  simpa [Clear, htext] using h

/-- A copied text is clear of each mark, whatever it says. -/
theorem Clear.copied {mark : String} (text : String) {pieces : Written} (h : Clear mark pieces) :
    Clear mark (.copied text :: pieces) := by
  simpa [Clear] using h

/-- Pieces that are clear of a mark stay so one behind the other. -/
theorem Clear.append {mark : String} {a b : Written} (ha : Clear mark a) (hb : Clear mark b) :
    Clear mark (a ++ b) := fun text htext =>
  (List.mem_append.1 htext).elim (ha text) (hb text)

theorem Clear.flatMap {α : Type} {mark : String} {f : α → Written} (h : ∀ item, Clear mark (f item))
    (items : List α) : Clear mark (items.flatMap f) := by
  intro text htext
  obtain ⟨item, -, hitem⟩ := List.mem_flatMap.1 htext
  exact h item text hitem

/-- Own text of the pieces is clear of the marks of bullets and anchors. -/
def Harmless (pieces : Written) : Prop := ∀ mark ∈ [bulletMark, anchorMark], Clear mark pieces

namespace Harmless

theorem nil : Harmless [] := fun _ _ => Clear.nil

/-- A harmless text of the page's own has neither a bullet nor an anchor. -/
theorem own {text : String} {pieces : Written} (h : Harmless pieces)
    (htext : ∀ mark ∈ [bulletMark, anchorMark], clear mark.toList text.toList = true := by decide) :
    Harmless (.own text :: pieces) := fun mark hmark =>
  (h mark hmark).own (htext mark hmark)

/-- A copied text is harmless, whatever it says. -/
theorem copied {text : String} {pieces : Written} (h : Harmless pieces) :
    Harmless (.copied text :: pieces) := fun mark hmark => Clear.copied text (h mark hmark)

/-- Harmless pieces stay so one behind the other. -/
theorem append {a b : Written} (ha : Harmless a) (hb : Harmless b) : Harmless (a ++ b) :=
  fun mark hmark =>
  (ha mark hmark).append (hb mark hmark)

theorem flatMap {α : Type} {f : α → Written} (h : ∀ item, Harmless (f item)) (items : List α) :
    Harmless (items.flatMap f) := fun mark hmark =>
  Clear.flatMap (fun item => h item mark hmark) items

end Harmless

/-- Code marks around harmless pieces do no harm. -/
theorem harmless_code {pieces : Written} (h : Harmless pieces) : Harmless (code pieces) :=
  Harmless.own (h.append (Harmless.own Harmless.nil))

/-- Lists of arguments show no member. -/
theorem harmless_arguments (args : Option (List ArgBinding)) : Harmless (arguments args) := by
  cases args with
  | none => exact Harmless.own Harmless.nil
  | some bindings =>
    have hbinding : ∀ b : ArgBinding, Harmless (binding b) := by
      intro b
      cases b with
      | spread | merge => exact Harmless.own (Harmless.copied Harmless.nil)
      | _ => exact Harmless.copied Harmless.nil
    rw [arguments]
    induction bindings with
    | nil => exact Harmless.nil
    | cons b rest ih =>
      cases rest with
      | nil => simpa using hbinding b
      | cons next rest =>
        rw [List.map_cons, List.map_cons, List.intercalate_cons_cons]
        exact ((hbinding b).append (Harmless.own Harmless.nil)).append ih

/-- The own text in the arguments of a member is clear also of the mark that closes them. -/
theorem clear_memberArguments {mark : String} (hmark : mark ∈ [bulletMark, anchorMark, endMark])
    (member : Member) : Clear mark (memberArguments member) := by
  have hown : ∀ text ∈ ["...value", "value", "...", "...values"],
      clear mark.toList text.toList = true := by
    revert mark
    decide
  unfold memberArguments
  split
  · exact Clear.nil.own (hown _ (by simp))
  · exact Clear.nil.own (hown _ (by simp))
  · split
    · exact Clear.nil
    · exact (Clear.nil.copied _).own (hown _ (by simp))
    · exact (Clear.nil.copied _).own (hown _ (by simp))
    · exact Clear.nil.copied _
  · exact Clear.nil.own (hown _ (by simp))
  · exact Clear.nil.own (hown _ (by simp))

theorem harmless_memberArguments (member : Member) : Harmless (memberArguments member) :=
  fun _ hmark => clear_memberArguments (List.mem_append_left [endMark] hmark) member

/-- The line of a dispatch case shows no member. -/
theorem harmless_caseLine (prop : Option String) (c : DocCase) : Harmless (caseLine prop c) := by
  have harticle : ∀ mark ∈ [bulletMark, anchorMark],
      clear mark.toList (article c.check.name).toList = true := by
    cases c.check <;> decide
  have htype : ∀ mark ∈ [bulletMark, anchorMark], clear mark.toList (caseType c).toList = true := by
    unfold caseType
    cases c.onItems <;> cases c.check <;> decide
  have htarget : Harmless (match prop with
      | some p => [.copied p, .own ".", .copied c.key]
      | none => [.copied c.key]) := by
    cases prop with
    | some p => exact Harmless.copied (Harmless.own (Harmless.copied Harmless.nil))
    | none => exact Harmless.copied Harmless.nil
  have hhead : Harmless [.own "- If the argument is ", .own (article c.check.name), .own " "] :=
    Harmless.own (Harmless.own (Harmless.own Harmless.nil) harticle)
  have hsets : Harmless [.own ", sets the "] := Harmless.own Harmless.nil
  have hproperty : Harmless [.own " property.\n"] := Harmless.own Harmless.nil
  have hwanted := hhead.append (harmless_code (Harmless.own Harmless.nil htype))
  exact ((hwanted.append hsets).append (harmless_code htarget)).append hproperty

/-- The dispatch lines of a member show no other one. -/
theorem harmless_dispatchLines (prop : Option String) (table : TypeTable) :
    Harmless (dispatchLines prop table) := by
  refine Harmless.append (Harmless.own (Harmless.flatMap (harmless_caseLine prop) _)) ?_
  cases prop with
  | some p =>
    exact Harmless.own
      ((harmless_code (Harmless.copied Harmless.nil)).append (Harmless.own Harmless.nil))
  | none => exact Harmless.own Harmless.nil

theorem harmless_describedLines (shape : Properties) (member : Member) :
    Harmless (describedLines shape member) := by
  have hdesc : ∀ desc, memberDescription member shape = some desc → Harmless desc := by
    intro desc h
    unfold memberDescription at h
    generalize member.desc.or ((Fields.get? shape member.name).bind Json.description) = own at h
    split at h
    · split at h
      · obtain ⟨d, -, rfl⟩ := Option.map_eq_some_iff.1 h
        exact Harmless.copied Harmless.nil
      · cases own with
        | some d =>
          cases h
          exact Harmless.copied (Harmless.own (Harmless.own (harmless_dispatchLines _ _)))
        | none =>
          cases h
          exact harmless_dispatchLines _ _
    · obtain ⟨d, -, rfl⟩ := Option.map_eq_some_iff.1 h
      exact Harmless.copied Harmless.nil
  unfold describedLines
  refine Harmless.append ?_ (Harmless.own Harmless.nil)
  cases hmember : memberDescription member shape with
  | none => exact Harmless.nil
  | some desc =>
    exact Harmless.own ((hdesc desc hmember).append (Harmless.own Harmless.nil))

/-- The head of a page shows no member, whatever the description of the entry says. -/
theorem harmless_pageHead (lead name : String) (entry : Entry) :
    Harmless (pageHead lead name entry) := by
  have hdesc : Harmless (match entry.desc with
      | some desc => [.own "\n", .copied desc]
      | none => []) := by
    cases entry.desc with
    | some desc => exact Harmless.own (Harmless.copied Harmless.nil)
    | none => exact Harmless.nil
  have htypes : Harmless (match (entry.method?.bind (·.typeTable 0)) with
      | some table => .own "\n" :: .own "\n" :: dispatchLines none table
      | none => []) := by
    cases entry.method?.bind (·.typeTable 0) with
    | some table => exact Harmless.own (Harmless.own (harmless_dispatchLines none table))
    | none => exact Harmless.nil
  have hname : Harmless [.copied lead, .own "<b>", .copied name, .own "</b>(<em>"] :=
    Harmless.copied (Harmless.own (Harmless.copied (Harmless.own Harmless.nil)))
  have hclose : Harmless [.own "</em>)\n"] := Harmless.own Harmless.nil
  have hend : Harmless [.own "\n"] := Harmless.own Harmless.nil
  have hsignature := (hname.append (harmless_arguments entry.args)).append hclose
  exact ((hsignature.append hdesc).append htypes).append hend

/-! ### What is shown behind a mark -/

/-- The pieces show these things behind the places of a mark, whatever follows them. -/
def Shows {β : Type} (mark : String) (read : List (Char × Bool) → β) (pieces : Written)
    (shown : List β) : Prop :=
  ∀ rest : Written, (sites mark (chars (pieces ++ rest))).map read =
    shown ++ (sites mark rest.chars).map read

section Shows

variable {β : Type} {mark : String} {read : List (Char × Bool) → β} {pieces : Written}

/-- Pieces that are clear of a mark show nothing. -/
theorem Clear.shows (h : Clear mark pieces) (hmark : IsMark mark) : Shows mark read pieces [] := by
  intro rest
  rw [h.sites_append hmark.ne_nil, List.nil_append]

/-- A mark in front of clear pieces shows what is read behind it. -/
theorem IsMark.shows (hmark : IsMark mark) (h : Clear mark pieces) {b : β}
    (hread : ∀ rest : Written, read (chars (pieces ++ rest)) = b) :
    Shows mark read (.own mark :: pieces) [b] := by
  intro rest
  rw [List.cons_append, hmark.sites_cons, List.map_cons, hread, h.sites_append hmark.ne_nil]
  rfl

/-- What two runs of pieces show, they show one behind the other. -/
theorem Shows.append {a b : Written} {shown shown' : List β} (ha : Shows mark read a shown)
    (hb : Shows mark read b shown') : Shows mark read (a ++ b) (shown ++ shown') := by
  intro rest
  rw [List.append_assoc, ha, hb, List.append_assoc]

/-- What is shown item by item is shown by all of them, in their order. -/
theorem Shows.flatMap {α : Type} {f : α → Written} {g : α → List β}
    (h : ∀ item, Shows mark read (f item) (g item)) (items : List α) :
    Shows mark read (items.flatMap f) (items.flatMap g) := by
  induction items with
  | nil => exact fun rest => rfl
  | cons item items ih => exact (h item).append ih

/-- What pieces show is what is read behind the places of the mark. -/
theorem Shows.eq {shown : List β} (h : Shows mark read pieces shown) :
    (sites mark pieces.chars).map read = shown := by
  simpa [sites, chars] using h []

end Shows

/-! ### Bullets and anchors -/

/-- The name that a line begins with is read up to the first character of the page's own. -/
theorem copiedFront_copied (name text : String) (htext : text.toList ≠ []) (rest : Written) :
    copiedFront (chars (.copied name :: .own text :: rest)) = name := by
  obtain ⟨c, tail, hc⟩ := List.exists_cons_of_ne_nil htext
  have hchars : chars (.copied name :: .own text :: rest) =
      (name.toList.map fun c => (c, false)) ++ ((c, true) :: (ownChars tail ++ rest.chars)) := by
    simp [chars, Piece.chars, hc]
  rw [copiedFront, hchars, List.takeWhile_append_of_pos (by simp)]
  simp [ofChars, Function.comp_def]

theorem harmless_anchorTail (name : String) (member : Member) : Harmless (anchorTail name member) :=
  Harmless.own
    (Harmless.copied (Harmless.own (Harmless.copied (Harmless.own (Harmless.copied Harmless.nil)))))

/-- What follows the name in an anchor, up to the end of the block. -/
def blockTail (name : String) (shape : Properties) (member : Member) : Written :=
  anchorTail name member ++ .own argumentsMark :: memberArguments member ++
    [.own endMark, .own "\n"] ++ describedLines shape member

/-- A member's block begins with the anchor and the name of the member. -/
theorem memberBlock_eq (name : String) (shape : Properties) (member : Member) :
    memberBlock name shape member =
      .own anchorMark :: .copied member.name :: blockTail name shape member := by
  simp [memberBlock, anchorLines, blockTail]

/-- Behind its anchor and its name, a member's block shows no other member. -/
theorem harmless_blockTail (name : String) (shape : Properties) (member : Member) :
    Harmless (blockTail name shape member) := by
  have harguments : Harmless (.own argumentsMark :: memberArguments member) :=
    Harmless.own (harmless_memberArguments member)
  have hend : Harmless [.own endMark, .own "\n"] := Harmless.own (Harmless.own Harmless.nil)
  exact (((harmless_anchorTail name member).append harguments).append hend).append
    (harmless_describedLines shape member)

/-- What is read behind the mark of an anchor: the name and the arguments. -/
def anchor (behind : List (Char × Bool)) : String × String :=
  (copiedFront behind, ofChars (upTo endMark ((sites argumentsMark behind).headD [])))

/-- Behind an anchor, the name of the member and its arguments can be read back. -/
theorem anchor_blockTail (name : String) (shape : Properties) (member : Member) (rest : Written) :
    anchor (chars (.copied member.name :: (blockTail name shape member ++ rest))) =
      (member.name, Reference.memberArguments member) := by
  have hfront : Clear argumentsMark (.copied member.name :: anchorTail name member) :=
    Clear.copied _ (Clear.own (Clear.copied _ (Clear.own (Clear.copied _
      (Clear.own (Clear.copied _ Clear.nil))))))
  have harguments : Clear endMark (memberArguments member) := clear_memberArguments (by simp) member
  -- in front of the arguments, the arguments, and behind them
  have hsplit : .copied member.name :: (blockTail name shape member ++ rest) =
      (.copied member.name :: anchorTail name member) ++ .own argumentsMark ::
        (memberArguments member ++ .own endMark ::
          (.own "\n" :: describedLines shape member ++ rest)) := by
    simp [blockTail]
  have hupTo : upTo endMark (chars (memberArguments member ++ .own endMark ::
      (.own "\n" :: describedLines shape member ++ rest))) = (memberArguments member).chars := by
    rw [chars, List.flatMap_append, ← chars, ← chars, harguments.upTo_append isMark_endMark.ne_nil,
      isMark_endMark.upTo_cons, List.append_nil]
  refine Prod.ext ?_ ?_
  · exact copiedFront_copied member.name "\" href=\"#" (by decide) _
  · dsimp only [anchor]
    rw [hsplit, hfront.sites_append isMark_argumentsMark.ne_nil, isMark_argumentsMark.sites_cons,
      List.headD_cons, hupTo, ofChars, chars_map_fst, text_memberArguments, String.ofList_toList]

/-- The overview shows each member once, in order. -/
theorem shows_overview (members : List Member) :
    Shows bulletMark copiedFront (members.flatMap overviewLine) (members.map Member.name) := by
  have hline : ∀ member, Shows bulletMark copiedFront (overviewLine member) [member.name] := by
    intro member
    have htail :
        Clear bulletMark [.copied member.name, .own "\">", .copied member.name, .own "</a>\n"] :=
      Clear.copied _ (Clear.own (Clear.copied _ (Clear.own Clear.nil)))
    exact isMark_bulletMark.shows htail fun rest => copiedFront_copied member.name _ (by decide) _
  rw [List.map_eq_flatMap]
  exact Shows.flatMap hline members

/-- The blocks show each member once, in order, with its arguments. -/
theorem shows_blocks (name : String) (shape : Properties) (members : List Member) :
    Shows anchorMark anchor (members.flatMap (memberBlock name shape))
      (members.map fun member => (member.name, Reference.memberArguments member)) := by
  have hblock : ∀ member, Shows anchorMark anchor (memberBlock name shape member)
      [(member.name, Reference.memberArguments member)] := by
    intro member
    have htail : Clear anchorMark (.copied member.name :: blockTail name shape member) :=
      Clear.copied _ (harmless_blockTail name shape member _ (by simp))
    rw [memberBlock_eq]
    exact isMark_anchorMark.shows htail (anchor_blockTail name shape member)
  rw [List.map_eq_flatMap]
  exact Shows.flatMap hblock members

/-- What stands in front of the member sections of a builder's page, and the sections. -/
theorem page_method (name : String) (spec : MethodSpec) (shape : Properties) (lead : String) :
    ∃ front, Harmless front ∧ page name (.method spec) shape lead =
      front ++ memberSections name shape (Member.sorted spec shape) := by
  cases hctr : spec.ctr with
  | some proxy =>
    have hsorted : Member.sorted spec shape = [] := by
      rw [Member.sorted, Member.plan_of_isProxy (by simp [MethodSpec.isProxy, hctr]),
        List.mergeSort_nil]
    -- the page of a proxy is all front: it has no members
    refine ⟨page name (.method spec) shape lead, ?_, by simp [hsorted, memberSections]⟩
    rw [page, pageBody, hctr]
    have hlink : Harmless [.own ")", .own " instance.\n"] :=
      Harmless.own (Harmless.own Harmless.nil)
    refine (harmless_pageHead lead name _).append ?_
    exact Harmless.own (Harmless.own (Harmless.copied (Harmless.own (Harmless.copied hlink))))
  | none =>
    refine ⟨pageHead lead name (.method spec) ++ [.own "\n"],
      (harmless_pageHead lead name _).append (Harmless.own Harmless.nil), ?_⟩
    simp [page, pageBody, hctr]

/-- Blocks have no bullets. -/
theorem clear_bulletMark_blocks (name : String) (shape : Properties) (members : List Member) :
    Clear bulletMark (members.flatMap (memberBlock name shape)) := by
  refine Clear.flatMap (fun member => ?_) members
  rw [memberBlock_eq]
  exact Clear.own (Clear.copied _ (harmless_blockTail name shape member _ (by simp)))

/-- The overview has no anchors. -/
theorem clear_anchorMark_overview (members : List Member) :
    Clear anchorMark (members.flatMap overviewLine) :=
  Clear.flatMap (fun _ =>
    Clear.own (Clear.copied _ (Clear.own (Clear.copied _ (Clear.own Clear.nil))))) members

/-- The headings of the two sections keep clear of the marks. -/
theorem harmless_headings (name : String) :
    Harmless [.own "## <code>", .copied name, .own "</code> Method Overview\n\n"] ∧
      Harmless [.own "\n", .own "## <code>", .copied name, .own "</code> API Reference\n\n"] :=
  ⟨Harmless.own (Harmless.copied (Harmless.own Harmless.nil)),
    Harmless.own (Harmless.own (Harmless.copied (Harmless.own Harmless.nil)))⟩

/-- The sections have the bullets of the overview and no other. -/
theorem shows_bullets (name : String) (shape : Properties) (members : List Member) :
    Shows bulletMark copiedFront (memberSections name shape members) (members.map Member.name) := by
  unfold memberSections
  split
  · next hempty =>
    obtain rfl := List.isEmpty_iff.1 hempty
    exact Clear.nil.shows isMark_bulletMark
  · obtain ⟨hoverview, hreference⟩ := harmless_headings name
    have hfront :=
      ((hoverview bulletMark (by simp)).shows isMark_bulletMark).append (shows_overview members)
    -- behind the overview no bullet is left
    have hbehind :=
      (hreference bulletMark (by simp)).append (clear_bulletMark_blocks name shape members)
    simpa using hfront.append (hbehind.shows isMark_bulletMark)

/-- The sections have the anchors of the blocks and no other. -/
theorem shows_anchors (name : String) (shape : Properties) (members : List Member) :
    Shows anchorMark anchor (memberSections name shape members)
      (members.map fun member => (member.name, Reference.memberArguments member)) := by
  unfold memberSections
  split
  · next hempty =>
    obtain rfl := List.isEmpty_iff.1 hempty
    exact Clear.nil.shows isMark_anchorMark
  · obtain ⟨hoverview, hreference⟩ := harmless_headings name
    -- no anchor stands in front of the first block
    have hfront :=
      ((hoverview anchorMark (by simp)).append (clear_anchorMark_overview members)).append
      (hreference anchorMark (by simp))
    exact (hfront.shows isMark_anchorMark).append (shows_blocks name shape members)

/-- **The bullets of a page name its members**, each once, in the order of their names. -/
theorem bullets_page (name : String) (spec : MethodSpec) (shape : Properties) (lead : String) :
    bullets (page name (.method spec) shape lead) = (Member.sorted spec shape).map Member.name := by
  obtain ⟨front, hfront, hpage⟩ := page_method name spec shape lead
  rw [bullets, hpage]
  exact (((hfront bulletMark (by simp)).shows isMark_bulletMark).append
    (shows_bullets name shape _)).eq

/-- **The anchors of a page name its members**, each once, in the order of their names and with the
arguments that are documented for them. -/
theorem anchors_page (name : String) (spec : MethodSpec) (shape : Properties) (lead : String) :
    anchors (page name (.method spec) shape lead) =
      (Member.sorted spec shape).map fun member =>
      (member.name, Reference.memberArguments member) := by
  obtain ⟨front, hfront, hpage⟩ := page_method name spec shape lead
  rw [anchors, hpage]
  exact (((hfront anchorMark (by simp)).shows isMark_anchorMark).append
    (shows_anchors name shape _)).eq

end Written

end Reference

end BuilderApi
