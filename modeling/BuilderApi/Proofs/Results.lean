import Mathlib.Data.List.Basic

/-!
# Computations that may fail, one after another

A list of computations is run from left to right and stops at the first failure. Either all of them
succeed, and the results stand in the order of the computations (`BuilderApi.mapM_eq_ok_iff`), or
the list splits at the one that failed, with only successes in front of it
(`BuilderApi.exists_split_of_mapM_eq_error`).
-/

namespace BuilderApi

variable {α β ε : Type} {f : α → Except ε β}

/-- A computation in two steps succeeds when both do. -/
theorem exists_of_bind_eq_ok {first : Except ε α} {next : α → Except ε β} {b : β}
    (h : first >>= next = .ok b) : ∃ a, first = .ok a ∧ next a = .ok b := by
  cases first with
  | error e => cases h
  | ok a => exact ⟨a, rfl, h⟩

/-- A computation in two steps fails when one of them does. -/
theorem error_or_of_bind_eq_error {first : Except ε α} {next : α → Except ε β} {e : ε}
    (h : first >>= next = .error e) :
    first = .error e ∨ ∃ a, first = .ok a ∧ next a = .error e := by
  cases first with
  | error e' =>
    cases h
    exact .inl rfl
  | ok a => exact .inr ⟨a, rfl, h⟩

/-- A result that is changed comes from a success. -/
theorem exists_of_map_eq_ok {g : α → β} {result : Except ε α} {b : β} (h : result.map g = .ok b) :
    ∃ a, result = .ok a ∧ g a = b := by
  cases result with
  | error e => cases h
  | ok a => exact ⟨a, rfl, Except.ok.inj h⟩

/-- Changing a result keeps its failure. -/
theorem error_of_map_eq_error {g : α → β} {result : Except ε α} {e : ε}
    (h : result.map g = .error e) :
    result = .error e := by
  cases result with
  | error e' => exact congrArg Except.error (Except.error.inj h)
  | ok a => cases h

/-- Another wording of failures makes no success. -/
theorem eq_ok_of_mapError {δ : Type} {g : ε → δ} {result : Except ε α} {a : α}
    (h : result.mapError g = .ok a) :
    result = .ok a := by
  cases result with
  | error e => cases h
  | ok b =>
    cases h
    rfl

theorem mapM_cons_of_ok {a : α} {b : β} (as : List α) (h : f a = .ok b) :
    (a :: as).mapM f = (as.mapM f).map (b :: ·) := by
  rw [List.mapM_cons, h]
  cases as.mapM f <;> rfl

theorem mapM_cons_of_error {a : α} {e : ε} (as : List α) (h : f a = .error e) :
    (a :: as).mapM f = .error e := by
  rw [List.mapM_cons, h]
  rfl

theorem mapM_attach (as : List α) : (as.attach.mapM fun a => f a.1) = as.mapM f := by
  change as.attach.mapM (f ∘ Subtype.val) = _
  rw [← List.mapM_map, List.attach_map_subtype_val]

/-- **A run succeeds when every computation does**, and keeps the order. -/
theorem mapM_eq_ok_iff {as : List α} {bs : List β} :
    as.mapM f = .ok bs ↔ as.map f = bs.map .ok := by
  induction as generalizing bs with
  | nil => cases bs <;> simp [pure, Except.pure]
  | cons a as ih =>
    cases ha : f a with
    | error e =>
      rw [mapM_cons_of_error as ha]
      cases bs <;> simp [ha]
    | ok b =>
      rw [mapM_cons_of_ok as ha]
      cases bs with
      | nil => cases as.mapM f <;> simp [Except.map]
      | cons b' bs =>
        rw [List.map_cons, List.map_cons, ha, List.cons.injEq, ← ih]
        cases as.mapM f <;> simp [Except.map]

/-- The results of a run that succeeds, as a function of the computations; `d` is never used. -/
theorem eq_map_of_mapM_eq_ok {as : List α} {bs : List β} (d : β) (h : as.mapM f = .ok bs) :
    (∀ a ∈ as, f a = .ok ((f a).toOption.getD d)) ∧ bs = as.map fun a => (f a).toOption.getD d := by
  rw [mapM_eq_ok_iff] at h
  constructor
  · intro a ha
    obtain ⟨b, -, hb⟩ := List.mem_map.1 (h ▸ List.mem_map_of_mem ha)
    rw [← hb]
    rfl
  · have hmap := congrArg (List.map fun r : Except ε β => r.toOption.getD d) h
    rw [List.map_map, List.map_map] at hmap
    exact (hmap.trans (List.map_id bs)).symm

/-- What results have in common with what they were computed from. -/
theorem map_eq_of_mapM_eq_ok {γ : Type} {g : α → γ} {g' : β → γ} {as : List α} {bs : List β}
    (h : as.mapM f = .ok bs) (hg : ∀ a b, f a = .ok b → g' b = g a) : bs.map g' = as.map g := by
  induction as generalizing bs with
  | nil =>
    cases h
    rfl
  | cons a as ih =>
    rw [List.mapM_cons] at h
    obtain ⟨b, hb, h⟩ := exists_of_bind_eq_ok h
    obtain ⟨others, hothers, h⟩ := exists_of_bind_eq_ok h
    cases h
    rw [List.map_cons, List.map_cons, hg a b hb, ih hothers]

/-- Every result was computed. -/
theorem exists_of_mem_mapM {as : List α} {bs : List β} (h : as.mapM f = .ok bs) {b : β}
    (hb : b ∈ bs) :
    ∃ a ∈ as, f a = .ok b := by
  have hmem : .ok b ∈ as.map f := by
    rw [mapM_eq_ok_iff.1 h]
    exact List.mem_map_of_mem hb
  exact List.mem_map.1 hmem

/-- A run around one computation. -/
theorem mapM_append_cons_eq_ok_iff {front back : List α} {a : α} {bs : List β} :
    (front ++ a :: back).mapM f = .ok bs ↔ ∃ before b behind, bs = before ++ b :: behind ∧
      front.mapM f = .ok before ∧ f a = .ok b ∧ back.mapM f = .ok behind := by
  simp only [mapM_eq_ok_iff]
  constructor
  · intro h
    rw [List.map_append, List.map_cons] at h
    obtain ⟨before, others, rfl, hfront, hothers⟩ := List.map_eq_append_iff.1 h.symm
    obtain ⟨b, behind, rfl, hb, hback⟩ := List.map_eq_cons_iff.1 hothers
    exact ⟨before, b, behind, rfl, hfront.symm, hb.symm, hback.symm⟩
  · rintro ⟨before, b, behind, rfl, hfront, hb, hback⟩
    rw [List.map_append, List.map_cons, hfront, hb, hback, List.map_append, List.map_cons]

/-- **Computations that are reordered succeed as well**, with the results reordered. -/
theorem exists_mapM_of_perm [Inhabited β] {as others : List α} {bs : List β}
    (h : as.mapM f = .ok bs) (hperm : as.Perm others) :
    ∃ results, others.mapM f = .ok results ∧ bs.Perm results := by
  obtain ⟨hok, rfl⟩ := eq_map_of_mapM_eq_ok default h
  refine ⟨_, mapM_eq_ok_iff.2 ?_, hperm.map _⟩
  rw [List.map_map]
  exact List.map_congr_left fun a ha => hok a (hperm.mem_iff.2 ha)

/-- **A run that fails stops at one computation**, behind computations that succeed. -/
theorem exists_split_of_mapM_eq_error {as : List α} {e : ε} (h : as.mapM f = .error e) :
    ∃ before a after, as = before ++ a :: after ∧ (∀ c ∈ before, ∃ b, f c = .ok b) ∧
      f a = .error e := by
  induction as with
  | nil => simp [pure, Except.pure] at h
  | cons a as ih =>
    cases ha : f a with
    | error e' =>
      rw [mapM_cons_of_error as ha, Except.error.injEq] at h
      exact ⟨[], a, as, rfl, by simp, h ▸ ha⟩
    | ok b =>
      -- the failure is further behind
      rw [mapM_cons_of_ok as ha] at h
      cases has : as.mapM f with
      | ok bs => simp [has, Except.map] at h
      | error e' =>
        obtain rfl : e' = e := by simpa [has, Except.map] using h
        obtain ⟨before, c, after, rfl, hbefore, hc⟩ := ih has
        refine ⟨a :: before, c, after, rfl, ?_, hc⟩
        intro c' hc'
        rcases List.mem_cons.1 hc' with rfl | hmem
        · exact ⟨b, ha⟩
        · exact hbefore c' hmem

theorem mapM_append_cons_of_error {before : List α} {a : α} {e : ε} (after : List α)
    (hbefore : ∀ c ∈ before, ∃ b, f c = .ok b) (ha : f a = .error e) :
    (before ++ a :: after).mapM f = .error e := by
  induction before with
  | nil => exact mapM_cons_of_error after ha
  | cons c before ih =>
    obtain ⟨b, hb⟩ := hbefore c List.mem_cons_self
    rw [List.cons_append, mapM_cons_of_ok _ hb, ih fun c' hc' =>
      hbefore c' (List.mem_cons_of_mem c hc')]
    rfl

end BuilderApi
