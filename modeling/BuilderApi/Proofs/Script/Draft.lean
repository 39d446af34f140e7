import Mathlib.Data.Finset.Sort
import BuilderApi.Proofs.Script.Accessors
import BuilderApi.Proofs.Script.Ledger

/-!
# Listings written step by step

A listing can be written as its steps come. What is written so far is a **draft**: the ledger of
imports, the lines, and the blanks that stand in front of the next line. A step out cuts bytes off
these blanks. A cut could fall inside a character, but behind no listing it does, and the draft that
a listing leaves has its text (`BuilderApi.Draft.map_text_write`).

The steps act on two things apart:

* needs act on the ledger, which is known from the sources in order of their first need and, for
  each source, the set of its symbols (`BuilderApi.Listing.ledger_eq`);
* the other steps act on the lines, each of which is known from its text and the level at its place
  (`BuilderApi.Listing.body_eq`).

So needs may be moved along the other steps, and among themselves as long as the sources keep their
order (`BuilderApi.Listing.Rearranged.text_eq`).
-/

namespace BuilderApi

/-! ### Drafts -/

/-- A listing that is being written. -/
structure Draft where
  /-- The default source. -/
  main : String
  /-- The symbols that are needed, by source. -/
  ledger : Fields (List String)
  /-- The lines. -/
  lines : List String
  /-- What stands in front of the next line. -/
  lead : String

namespace Draft

/-- The blanks of one level. -/
def tab : String := "  "

/-- The characters at the front that take up so many bytes, or all of them if they take up less;
nothing if the cut falls inside a character. -/
def cut (bytes : Nat) : List Char → Option (List Char)
  | [] => some []
  | c :: rest =>
    if bytes = 0 then some []
    else if bytes < c.utf8Size then none
    else (cut (bytes - c.utf8Size) rest).map (c :: ·)

/-- The draft of nothing. -/
def start (main : String) : Draft := ⟨main, [(main, [])], [], ""⟩

/-- Writes a line. -/
def line (draft : Draft) (text : String) : Draft :=
  { draft with lines := draft.lines ++ [if text = "" then "" else draft.lead ++ text] }

/-- Goes one level further in. -/
def indent (draft : Draft) : Draft := { draft with lead := draft.lead ++ tab }

/-- Goes one level back out. -/
def outdent (draft : Draft) : Option Draft :=
  (cut (draft.lead.utf8ByteSize - tab.utf8ByteSize) draft.lead.toList).map fun lead =>
    { draft with lead := String.ofList lead }

/-- Needs symbols of a source. -/
def need (draft : Draft) (source : String) (symbols : List String) : Draft :=
  { draft with ledger := Listing.record draft.ledger source symbols }

/-- Writes a step. An empty line is the step `Listing.blank`, and symbols of the default source are
needed by the steps `Listing.use` and `Listing.useAll`. -/
def take (draft : Draft) : ListingStep → Option Draft
  | .line text => some (draft.line text)
  | .indent => some draft.indent
  | .outdent => draft.outdent
  | .need source? symbols => some (draft.need (source?.getD draft.main) symbols)

/-- Writes a listing. -/
def write (main : String) (listing : Listing) : Option Draft := listing.foldlM take (start main)

/-- The text: a line for each source, an empty line, and the lines. -/
def text (draft : Draft) : String :=
  "\n".intercalate (draft.ledger.map (fun field => Listing.importLine field.1 field.2) ++ "" ::
    draft.lines)

end Draft

/-! ### What a listing leaves -/

namespace Listing

variable (depth : Nat) (step : ListingStep) (rest : Listing)

theorem body_cons :
    body depth (step :: rest) = body depth [step] ++ body (level depth [step]) rest :=
  body_append depth [step] rest

theorem level_cons : level depth (step :: rest) = level (level depth [step]) rest :=
  level_append depth [step] rest

end Listing

namespace Draft

open Listing (indentation recordStep body level)

/-- A blank is one byte long, so that no cut falls inside it. -/
theorem cut_replicate (bytes n : Nat) :
    cut bytes (List.replicate n ' ') = some (List.replicate (min bytes n) ' ') := by
  induction n generalizing bytes with
  | zero =>
    rw [Nat.min_zero]
    rfl
  | succ n ih =>
    rw [List.replicate_succ, cut]
    cases bytes with
    | zero =>
      rw [if_pos rfl, Nat.zero_min]
      rfl
    | succ bytes =>
      have hsize : ' '.utf8Size = 1 := rfl
      rw [if_neg (Nat.succ_ne_zero _), hsize, if_neg (by omega), Nat.add_sub_cancel, ih,
        Nat.add_min_add_right, List.replicate_succ]
      rfl

theorem utf8ByteSize_indentation (depth : Nat) : (indentation depth).utf8ByteSize = 2 * depth := by
  rw [indentation, String.utf8ByteSize_ofList]
  induction 2 * depth with
  | zero => rfl
  | succ n ih =>
    rw [List.replicate_succ, String.utf8Len_cons, ih]
    rfl

theorem indentation_append_tab (depth : Nat) :
    indentation depth ++ tab = indentation (depth + 1) := by
  have htab : tab = String.ofList (List.replicate 2 ' ') := rfl
  rw [indentation, htab, ← String.ofList_append, List.replicate_append_replicate, indentation,
    Nat.mul_succ]

variable {main : String} {ledger : Fields (List String)} {lines : List String} {depth : Nat}

/-- The bytes that a step out cuts off are those of one level, or there are none. -/
theorem outdent_eq : (Draft.mk main ledger lines (indentation depth)).outdent =
    some ⟨main, ledger, lines, indentation (depth - 1)⟩ := by
  have htab : tab.utf8ByteSize = 2 := rfl
  have hmin : min (2 * depth - 2) (2 * depth) = 2 * (depth - 1) := by omega
  have hcut : cut (2 * depth - 2) (indentation depth).toList =
      some (List.replicate (2 * (depth - 1)) ' ') := by
    rw [indentation, String.toList_ofList, cut_replicate, hmin]
  rw [outdent, utf8ByteSize_indentation, htab, hcut]
  rfl

/-- **What one step leaves**: the ledger, the lines and the level, each with what the step adds to
it. -/
theorem take_eq (step : ListingStep) : (Draft.mk main ledger lines (indentation depth)).take step =
    some ⟨main, recordStep main ledger step, lines ++ body depth [step],
      indentation (level depth [step])⟩ := by
  cases step with
  | line text => rfl
  | indent => simp [take, indent, indentation_append_tab, recordStep, body, level]
  | outdent => simp [take, outdent_eq, recordStep, body, level]
  | need source? symbols => simp [take, need, recordStep, body, level]

/-- **What a listing leaves**, whatever was written before it. -/
theorem foldlM_take (listing : Listing) :
    listing.foldlM take (Draft.mk main ledger lines (indentation depth)) =
    some ⟨main, listing.foldl (recordStep main) ledger, lines ++ body depth listing,
      indentation (level depth listing)⟩ := by
  induction listing generalizing ledger lines depth with
  | nil => simp [body, level]
  | cons step rest ih =>
    rw [List.foldlM_cons, take_eq, Option.bind_eq_bind, Option.bind_some, ih,
      Listing.body_cons depth step rest,
      Listing.level_cons depth step rest, List.append_assoc]
    rfl

/-- **Every listing can be written**: no cut falls inside a character. -/
theorem write_eq (main : String) (listing : Listing) :
    write main listing =
      some ⟨main, Listing.ledger main listing, body 0 listing, indentation (level 0 listing)⟩ := by
  have hstart : start main = ⟨main, [(main, [])], [], indentation 0⟩ := rfl
  rw [write, hstart, foldlM_take]
  rfl

theorem map_text_write (main : String) (listing : Listing) :
    (write main listing).map text = some (listing.text main) := by
  rw [write_eq]
  rfl

end Draft

/-! ### What a step needs -/

namespace ListingStep

/-- Does the step need symbols? -/
def isNeed : ListingStep → Bool
  | .need _ _ => true
  | _ => false

@[simp] theorem isNeed_need (source? : Option String) (symbols : List String) :
    (need source? symbols).isNeed = true := rfl

/-- The source that a step needs symbols of. -/
def source? (main : String) : ListingStep → Option String
  | .need source? _ => some (source?.getD main)
  | _ => none

/-- The symbols that a step needs of a source. -/
def symbolsOf (main source : String) : ListingStep → List String
  | .need source? symbols => if source?.getD main = source then symbols else []
  | _ => []

/-- The line that a step writes at a level. -/
def lineAt (depth : Nat) : ListingStep → Option String
  | .line text => some (if text = "" then "" else Listing.indentation depth ++ text)
  | _ => none

end ListingStep

namespace Listing

open ListingStep

variable {main source symbol : String} {ledger : Fields (List String)} {listing other : Listing}

/-! ### The closed form of the ledger -/

/-- The sources of a listing: the default one, and the others in order of their first need. -/
def sources (main : String) (listing : Listing) : List String :=
  (main :: listing.filterMap (source? main)).eraseDups

/-- The symbols that a listing needs of a source, in code-point order and without repetition. -/
def symbolsOf (main source : String) (listing : Listing) : List String :=
  (listing.flatMap (ListingStep.symbolsOf main source)).toFinset.sort (· ≤ ·)

/-- A source that is there keeps its place, and a new one goes behind the others. -/
theorem names_foldl_recordStep (h : (Fields.names ledger).Nodup) :
    Fields.names (listing.foldl (recordStep main) ledger) =
      (Fields.names ledger ++ listing.filterMap (source? main)).eraseDups := by
  induction listing generalizing ledger with
  | nil =>
    rw [List.filterMap_nil, List.append_nil, eraseDups_of_nodup h]
    rfl
  | cons step rest ih =>
    rw [List.foldl_cons]
    cases step with
    | need source? symbols =>
      have hnext := @ih (record ledger (source?.getD main) symbols) (Fields.nodup_names_put h _ _)
      have hsources :
          (ListingStep.need source? symbols :: rest).filterMap (ListingStep.source? main) =
          source?.getD main :: rest.filterMap (ListingStep.source? main) := rfl
      rw [recordStep, hnext, record, Fields.names_put, hsources]
      split
      · next hmem => exact (eraseDups_append_cons_of_mem _ hmem).symm
      · rw [List.append_assoc, List.singleton_append]
    | _ => exact ih h

theorem names_ledger (main : String) (listing : Listing) :
    Fields.names (Listing.ledger main listing) = sources main listing :=
  names_foldl_recordStep (List.nodup_singleton main)

/-- The symbols of a source are those that some step needs from it. -/
theorem mem_symbolsOf : symbol ∈ symbolsOf main source listing ↔
    ∃ source? symbols, .need source? symbols ∈ listing ∧ source?.getD main = source ∧
      symbol ∈ symbols := by
  rw [symbolsOf, Finset.mem_sort, List.mem_toFinset, List.mem_flatMap]
  constructor
  · rintro ⟨step, hstep, hsymbol⟩
    cases step with
    | need source? symbols =>
      rw [ListingStep.symbolsOf] at hsymbol
      split at hsymbol
      · next hsource => exact ⟨source?, symbols, hstep, hsource, hsymbol⟩
      · cases hsymbol
    | _ => cases hsymbol
  · rintro ⟨source?, symbols, hstep, hsource, hsymbol⟩
    refine ⟨_, hstep, ?_⟩
    rwa [ListingStep.symbolsOf, if_pos hsource]

/-- **A ledger is known from its sources and, for each of them, the set of its symbols.** -/
theorem ledger_eq (main : String) (listing : Listing) : Listing.ledger main listing =
    (sources main listing).map fun source => (source, symbolsOf main source listing) := by
  have hkept : Kept (Listing.ledger main listing) := kept_ledger
  have hfield : ∀ field ∈ Listing.ledger main listing, id field =
      (field.1, symbolsOf main field.1 listing) := by
    intro field hmem
    -- two strictly increasing lists with the same members
    have hsymbols : field.2 = symbolsOf main field.1 listing := by
      refine (hkept.symbols field hmem).eq_of_mem_iff (Finset.sortedLT_sort _).pairwise
        fun symbol => ?_
      have hget := Fields.get?_of_mem hkept.sources hmem
      have hlists : Lists (Listing.ledger main listing) field.1 symbol ↔ symbol ∈ field.2 := by
        simp [Lists, hget]
      rw [← hlists, lists_ledger_iff]
      exact mem_symbolsOf.symm
    exact Prod.ext rfl hsymbols
  calc Listing.ledger main listing = (Listing.ledger main listing).map id := (List.map_id _).symm
    _ = (Listing.ledger main listing).map fun field => (field.1, symbolsOf main field.1 listing) :=
      List.map_congr_left hfield
    _ = (Fields.names (Listing.ledger main listing)).map fun source =>
        (source, symbolsOf main source listing) := by
      rw [Fields.names, List.map_map]
      rfl
    _ = _ := by rw [names_ledger]

/-! ### The closed form of the lines -/

/-- The lines of a listing: each step writes at the level behind the steps in front of it. -/
def linesAt (depth : Nat) (listing : Listing) : List String :=
  (listing.zip (listing.inits.map (level depth))).filterMap fun place => place.1.lineAt place.2

theorem linesAt_cons (depth : Nat) (step : ListingStep) (rest : Listing) :
    linesAt depth (step :: rest) =
      (step.lineAt depth).toList ++ linesAt (level depth [step]) rest := by
  have hlevel : (rest.inits.map (step :: ·)).map (level depth) =
      rest.inits.map (level (level depth [step])) := by
    rw [List.map_map]
    exact List.map_congr_left fun front _ => level_cons depth step front
  rw [linesAt, List.inits_cons, List.map_cons, List.zip_cons_cons, hlevel]
  cases step <;> rfl

/-- The body of a listing is its lines at their depths. -/
theorem body_eq (depth : Nat) (listing : Listing) : body depth listing = linesAt depth listing := by
  induction listing generalizing depth with
  | nil => rfl
  | cons step rest ih =>
    have hstep : body depth [step] = (step.lineAt depth).toList := by cases step <;> rfl
    rw [body_cons depth step rest, hstep, ih, linesAt_cons]

theorem text_eq (main : String) (listing : Listing) : listing.text main =
    "\n".intercalate ((sources main listing).map (fun source =>
      importLine source (symbolsOf main source listing)) ++
      "" :: linesAt 0 listing) := by
  rw [text, ledger_eq, List.map_map, body_eq]
  rfl

/-! ### Needs among the other steps -/

/-- The steps that are no needs are the same in the same order, the needs are the same up to their
order, and the sources keep the order of their first needs. -/
structure Rearranged (main : String) (listing other : Listing) : Prop where
  /-- What is no need. -/
  layout : listing.filter (!·.isNeed) = other.filter (!·.isNeed)
  /-- The needs. -/
  needs : (listing.filter isNeed).Perm (other.filter isNeed)
  /-- The order of the sources. -/
  sources : sources main listing = sources main other

/-- Needs write no line. -/
theorem body_filter (depth : Nat) (listing : Listing) :
    body depth (listing.filter (!·.isNeed)) = body depth listing := by
  induction listing generalizing depth with
  | nil => rfl
  | cons step rest ih =>
    cases step with
    | line text => exact congrArg (_ :: ·) (ih depth)
    | indent => exact ih (depth + 1)
    | outdent => exact ih (depth - 1)
    | need source? symbols => exact ih depth

/-- Only needs have sources. -/
theorem sources_filter (main : String) (listing : Listing) :
    sources main (listing.filter isNeed) = sources main listing := by
  rw [sources, sources, List.filterMap_filter]
  congr 3
  funext step
  cases step <;> rfl

/-- Only needs have symbols. -/
theorem symbolsOf_filter (main source : String) (listing : Listing) :
    symbolsOf main source (listing.filter isNeed) = symbolsOf main source listing := by
  have hneeds : (listing.filter isNeed).flatMap (ListingStep.symbolsOf main source) =
      listing.flatMap (ListingStep.symbolsOf main source) := by
    induction listing with
    | nil => rfl
    | cons step rest ih =>
      cases step with
      | need source? symbols => exact congrArg (_ ++ ·) ih
      | _ => exact ih
  rw [symbolsOf, symbolsOf, hneeds]

/-- The order of the steps makes no difference to the symbols. -/
theorem symbolsOf_perm (h : listing.Perm other) (main source : String) :
    symbolsOf main source listing = symbolsOf main source other := by
  rw [symbolsOf, symbolsOf, List.toFinset_eq_of_perm _ _ (h.flatMap_right _)]

namespace Rearranged

/-- Needs that keep their order. -/
theorem of_needs_eq (hlayout : listing.filter (!·.isNeed) = other.filter (!·.isNeed))
    (hneeds : listing.filter isNeed = other.filter isNeed) : Rearranged main listing other where
  layout := hlayout
  needs := hneeds ▸ List.Perm.refl _
  sources := by rw [← sources_filter, hneeds, sources_filter]

/-- A need is moved along steps that are none. -/
theorem of_move (front back : Listing) {steps : Listing} (source? : Option String)
    (symbols : List String) (hsteps : ∀ step ∈ steps, step.isNeed = false) :
    Rearranged main (front ++ .need source? symbols :: (steps ++ back))
      (front ++ (steps ++ .need source? symbols :: back)) := by
  have hneeds : steps.filter isNeed = [] := List.filter_eq_nil_iff.2 fun step hstep => by
    simp [hsteps step hstep]
  refine of_needs_eq (by simp) ?_
  rw [List.filter_append, List.filter_append, List.filter_cons_of_pos (isNeed_need _ _),
    List.filter_append,
    List.filter_append, hneeds, List.nil_append, List.filter_cons_of_pos (isNeed_need _ _),
      List.nil_append]

/-- Rearranged listings have one ledger. -/
theorem ledger_eq (h : Rearranged main listing other) :
    Listing.ledger main listing = Listing.ledger main other := by
  rw [Listing.ledger_eq, Listing.ledger_eq, h.sources]
  refine List.map_congr_left fun source _ => ?_
  rw [← symbolsOf_filter, symbolsOf_perm h.needs, symbolsOf_filter]

theorem text_eq (h : Rearranged main listing other) : listing.text main = other.text main := by
  rw [text, text, h.ledger_eq, ← body_filter, h.layout, body_filter]

end Rearranged

/-- **The text of a listing is made of ledgers that do not touch each other.** Writing it step by
step always succeeds. It gives a line for each source, the default one first and the others in order
of their first need, with exactly the symbols that are needed of it, in order; an empty line; and
the lines in order, each at the level at its place. So needs may be moved along all other steps, and
may change places as long as the sources keep their order. -/
theorem ledgers_independent (main : String) :
    (∀ listing, (Draft.write main listing).map Draft.text = some (listing.text main) ∧
      listing.text main = "\n".intercalate
        ((sources main listing).map (fun source =>
          importLine source (symbolsOf main source listing)) ++
          "" :: linesAt 0 listing)) ∧
    (∀ (front steps back : Listing) source? symbols, (∀ step ∈ steps, step.isNeed = false) →
      text main (front ++ .need source? symbols :: (steps ++ back)) =
        text main (front ++ (steps ++ .need source? symbols :: back))) ∧
    ∀ listing other, Rearranged main listing other → listing.text main = other.text main := by
  refine ⟨fun listing => ⟨Draft.map_text_write main listing, text_eq main listing⟩, ?_,
    fun _ _ h => h.text_eq⟩
  exact fun front steps back source? symbols hsteps =>
    (Rearranged.of_move front back source? symbols hsteps).text_eq

/-- A block behind an outward step, and needs where they arise; the last one names the default
source. -/
def scattered : Listing :=
  [.outdent, useFrom "render" "__view__", .line "a \x7b", .indent, use "set", .line "b",
    blank, .outdent, .need (some "u") ["copy", "set"], .line "\x7d"]

/-- The same with its needs in front, and in another order. -/
def gathered : Listing :=
  [.need (some "u") ["copy", "set"], use "set", useFrom "render" "__view__", .outdent,
    .line "a \x7b", .indent, .line "b", blank, .outdent, .line "\x7d"]

/-- A line at level zero, behind more steps out than in. -/
def outward : Listing := [.outdent, .outdent, .line "x"]

theorem ledgers_independent_gathered :
    (Rearranged "u" scattered gathered ∧ gathered.text "u" =
      "import \x7bcopy, set\x7d from './u';\nimport \x7brender\x7d from './__view__';\n\na \x7b\n  b\n\n\x7d") ∧
    (∀ step ∈ outward, step.isNeed = false) ∧
      text "u" ([.indent] ++ .need (some "v") [] :: (outward ++ [use "b"])) =
        "import \x7bb\x7d from './u';\nimport \x7b\x7d from './v';\n\nx" := by
  obtain ⟨-, hmove, hrearranged⟩ := ledgers_independent "u"
  have hgathered : Rearranged "u" scattered gathered := ⟨by decide, by decide, by decide⟩
  have houtward : ∀ step ∈ outward, step.isNeed = false := by decide
  refine ⟨⟨hgathered, ?_⟩, houtward, ?_⟩
  · rw [← hrearranged scattered gathered hgathered]
    decide +kernel
  · rw [hmove [.indent] outward [use "b"] (some "v") [] houtward]
    decide +kernel

end Listing

end BuilderApi
