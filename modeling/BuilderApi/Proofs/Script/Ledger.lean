import Mathlib.Data.Set.Pairwise.List
import Mathlib.Data.String.Basic
import BuilderApi.Proofs.Json.Keyed
import BuilderApi.Script.Listing

/-!
# The ledger of imports

The needs of a listing are recorded one by one, wherever they stand, in a ledger with one entry for
each source. What the ledger lists is what is needed, each symbol under the source that it was
needed from (`BuilderApi.Listing.lists_ledger_iff`); and every step keeps two things, no source has
two entries, and in an entry the symbols strictly increase (`BuilderApi.Listing.kept_ledger`). So a
symbol is repeated in a ledger exactly if it is needed from two sources
(`BuilderApi.Listing.Kept.nodup_symbols_iff`).
-/

namespace BuilderApi

namespace Listing

/-! ### What is listed -/

theorem mem_insertSymbol {symbol other : String} {symbols : List String} :
    other ∈ insertSymbol symbol symbols ↔ other = symbol ∨ other ∈ symbols := by
  induction symbols with
  | nil => simp [insertSymbol]
  | cons first rest ih =>
    rw [insertSymbol]
    split_ifs with heq
    · subst heq
      simp
    · simp
    · rw [List.mem_cons, ih, List.mem_cons, or_left_comm]

theorem mem_foldl_insertSymbol {symbols listed : List String} {symbol : String} :
    symbol ∈ symbols.foldl (fun acc symbol => insertSymbol symbol acc) listed ↔
      symbol ∈ symbols ∨ symbol ∈ listed := by
  induction symbols generalizing listed with
  | nil => simp
  | cons first rest ih =>
    rw [List.foldl_cons, ih, mem_insertSymbol, List.mem_cons, or_left_comm, or_assoc]

/-- The ledger lists the symbol under the source. -/
def Lists (ledger : Fields (List String)) (source symbol : String) : Prop :=
  ∃ symbols, Fields.get? ledger source = some symbols ∧ symbol ∈ symbols

variable {main source symbol : String} {ledger : Fields (List String)} {listing : Listing}

theorem lists_record {other : String} {symbols : List String} :
    Lists (record ledger other symbols) source symbol ↔
      (other = source ∧ symbol ∈ symbols) ∨ Lists ledger source symbol := by
  unfold Lists record
  rw [Fields.get?_put]
  split_ifs with heq
  · subst heq
    cases Fields.get? ledger other <;> simp [mem_foldl_insertSymbol]
  · simp [heq]

/-- What is recorded stays recorded. -/
theorem lists_recordStep {step : ListingStep} (h : Lists ledger source symbol) :
    Lists (recordStep main ledger step) source symbol := by
  cases step with
  | need other symbols => exact lists_record.2 (.inr h)
  | _ => exact h

theorem lists_foldl (h : Lists ledger source symbol) :
    Lists (listing.foldl (recordStep main) ledger) source symbol := by
  induction listing generalizing ledger with
  | nil => exact h
  | cons step rest ih => exact ih (lists_recordStep h)

/-- **What a listing needs is listed**, under the source that it is needed from. -/
theorem lists_of_need {source? : Option String} {symbols : List String}
    (h : .need source? symbols ∈ listing) (hsymbol : symbol ∈ symbols) :
    Lists (Listing.ledger main listing) (source?.getD main) symbol := by
  unfold Listing.ledger
  generalize [(main, ([] : List String))] = start
  induction listing generalizing start with
  | nil => cases h
  | cons step rest ih =>
    rcases List.mem_cons.1 h with rfl | h
    · rw [List.foldl_cons]
      exact lists_foldl (lists_record.2 (.inl ⟨rfl, hsymbol⟩))
    · exact ih h _

section Ledger

variable {q : String → Prop} {p : String → String → Prop} {symbols : List String}

theorem forall_mem_record (hledger : ∀ field ∈ ledger, q field.1 ∧ ∀ symbol ∈ field.2,
    p field.1 symbol) (hsource : q source) (hsymbols : ∀ symbol ∈ symbols, p source symbol) :
    ∀ field ∈ record ledger source symbols, q field.1 ∧ ∀ symbol ∈ field.2, p field.1 symbol := by
  intro field hfield
  rcases Fields.mem_put hfield with hfield | rfl
  · exact hledger field hfield
  · refine ⟨hsource, fun symbol hsymbol => ?_⟩
    rcases mem_foldl_insertSymbol.1 hsymbol with hsymbol | hsymbol
    · exact hsymbols symbol hsymbol
    · cases hlisted : Fields.get? ledger source with
      | none => simp [hlisted] at hsymbol
      | some listed =>
        rw [hlisted] at hsymbol
        exact (hledger _ (Fields.mem_of_get? hlisted)).2 symbol hsymbol

/-- **Only what a listing needs is listed**: what is true of its sources, and of the symbols that it
needs from them, is true of its ledger. -/
theorem forall_mem_ledger (hmain : q main)
    (h : ∀ source? symbols, .need source? symbols ∈ listing →
      q (source?.getD main) ∧ ∀ symbol ∈ symbols, p (source?.getD main) symbol) :
    ∀ field ∈ Listing.ledger main listing, q field.1 ∧ ∀ symbol ∈ field.2, p field.1 symbol := by
  have hstart : ∀ field ∈ [(main, ([] : List String))], q field.1 ∧
      ∀ symbol ∈ field.2, p field.1 symbol :=
    List.forall_mem_singleton.2 ⟨hmain, List.forall_mem_nil _⟩
  unfold Listing.ledger
  generalize [(main, ([] : List String))] = start at hstart
  induction listing generalizing start with
  | nil => exact hstart
  | cons step rest ih =>
    refine ih (fun source? symbols hneed => h source? symbols (List.mem_cons_of_mem _ hneed)) _ ?_
    cases step with
    | need source? symbols =>
      obtain ⟨hsource, hsymbols⟩ := h source? symbols List.mem_cons_self
      exact forall_mem_record hstart hsource hsymbols
    | _ => exact hstart

end Ledger

/-- **A ledger lists what is needed.** -/
theorem lists_ledger_iff : Lists (Listing.ledger main listing) source symbol ↔
    ∃ source? symbols, .need source? symbols ∈ listing ∧ source?.getD main = source ∧
      symbol ∈ symbols := by
  constructor
  · rintro ⟨symbols, hget, hsymbol⟩
    refine (forall_mem_ledger (q := fun _ => True) (p := fun source symbol => ∃ source? symbols,
      .need source? symbols ∈ listing ∧ source?.getD main = source ∧ symbol ∈ symbols) trivial ?_ _
        (Fields.mem_of_get? hget)).2 symbol hsymbol
    exact fun source? symbols hneed =>
      ⟨trivial, fun symbol hsymbol => ⟨source?, symbols, hneed, rfl, hsymbol⟩⟩
  · rintro ⟨source?, symbols, hneed, rfl, hsymbol⟩
    exact lists_of_need hneed hsymbol

/-! ### How a ledger is kept -/

theorem pairwise_insertSymbol {symbols : List String} (h : symbols.Pairwise (· < ·))
    (symbol : String) :
    (insertSymbol symbol symbols).Pairwise (· < ·) := by
  induction symbols with
  | nil => exact List.pairwise_singleton _ _
  | cons first rest ih =>
    obtain ⟨hfirst, hrest⟩ := List.pairwise_cons.1 h
    rw [insertSymbol]
    split_ifs with heq hlt
    · exact h
    · refine List.pairwise_cons.2 ⟨List.forall_mem_cons.2 ⟨hlt, fun other hother => ?_⟩, h⟩
      exact lt_trans hlt (hfirst other hother)
    · refine List.pairwise_cons.2 ⟨fun other hother => ?_, ih hrest⟩
      rcases mem_insertSymbol.1 hother with rfl | hother
      · exact lt_of_le_of_ne (not_lt.1 hlt) (Ne.symm heq)
      · exact hfirst other hother

theorem pairwise_foldl_insertSymbol (symbols : List String) {listed : List String}
    (h : listed.Pairwise (· < ·)) :
    (symbols.foldl (fun acc symbol => insertSymbol symbol acc) listed).Pairwise (· < ·) := by
  induction symbols generalizing listed with
  | nil => exact h
  | cons first rest ih => exact ih (pairwise_insertSymbol h first)

/-- No source has two entries, and in every entry the symbols strictly increase. -/
structure Kept (ledger : Fields (List String)) : Prop where
  /-- The sources. -/
  sources : (Fields.names ledger).Nodup
  /-- The symbols. -/
  symbols : ∀ field ∈ ledger, field.2.Pairwise (· < ·)

theorem Kept.record (h : Kept ledger) (source : String) (symbols : List String) :
    Kept (Listing.record ledger source symbols) := by
  refine ⟨Fields.nodup_names_put h.sources _ _, fun field hfield => ?_⟩
  rcases Fields.mem_put hfield with hfield | rfl
  · exact h.symbols field hfield
  · refine pairwise_foldl_insertSymbol symbols ?_
    cases hget : Fields.get? ledger source with
    | none => exact List.Pairwise.nil
    | some listed => exact h.symbols _ (Fields.mem_of_get? hget)

theorem Kept.foldl (h : Kept ledger) : Kept (listing.foldl (recordStep main) ledger) := by
  induction listing generalizing ledger with
  | nil => exact h
  | cons step rest ih =>
    cases step with
    | need source? symbols => exact ih (h.record _ _)
    | _ => exact ih h

/-- **A ledger is kept in order.** -/
theorem kept_ledger : Kept (Listing.ledger main listing) :=
  Kept.foldl ⟨List.nodup_singleton _, List.forall_mem_singleton.2 List.Pairwise.nil⟩

/-- In a ledger that is kept, a symbol is repeated exactly if two sources list it. -/
theorem Kept.nodup_symbols_iff (h : Kept ledger) : (ledger.flatMap Prod.snd).Nodup ↔
    ∀ symbol source other, Lists ledger source symbol → Lists ledger other symbol →
      source = other := by
  have hnodup : ledger.Nodup := List.Nodup.of_map _ h.sources
  have hsymm :
      Std.Symm (Function.onFun List.Disjoint (Prod.snd : String × List String → List String)) :=
    ⟨fun _ _ hdisjoint _ hb ha => hdisjoint ha hb⟩
  rw [List.nodup_flatMap, ← hnodup.pairwise_coe]
  constructor
  · rintro ⟨-, hdisjoint⟩ symbol source other ⟨symbols, hget, hsymbol⟩ ⟨others, hother, hmem⟩
    by_contra hne
    exact hdisjoint (Fields.mem_of_get? hget) (Fields.mem_of_get? hother) (fun heq =>
      hne (congrArg Prod.fst heq)) hsymbol hmem
  · intro hlists
    refine ⟨fun field hfield =>
      (h.symbols field hfield).imp ne_of_lt, fun field hfield other hother hne symbol => ?_⟩
    intro hsymbol hmem
    have hsource : field.1 = other.1 :=
      hlists symbol _ _ ⟨_, Fields.get?_of_mem h.sources hfield, hsymbol⟩
      ⟨_, Fields.get?_of_mem h.sources hother, hmem⟩
    exact hne (List.inj_on_of_nodup_map h.sources hfield hother hsource)

end Listing

end BuilderApi
