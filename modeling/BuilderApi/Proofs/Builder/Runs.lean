import BuilderApi.Builder.Run

/-!
# What runs give

A run in two steps goes on from where the first one ended. What follows from this is said once: of
the result and the count of identifiers, and of the two together (`BuilderApi.Run.Ensures`).
-/

namespace BuilderApi

/-! ### Making -/

namespace Making

variable {α β γ : Type}

/-- Giving back what is made changes nothing. -/
theorem bind_give (making : Making α) : making.bind give = making := by
  induction making with
  | give a => rfl
  | identify base next ih => exact congrArg (identify base) (funext ih)
  | enter b next ih => exact congrArg (enter b) ih

/-- What is made in three turns may be bracketed either way. -/
theorem bind_bind (making : Making α) (next : α → Making β) (last : β → Making γ) :
    (making.bind next).bind last = making.bind fun a => (next a).bind last := by
  induction making with
  | give a => rfl
  | identify base rest ih => exact congrArg (identify base) (funext ih)
  | enter b rest ih => exact congrArg (enter b) ih

instance : LawfulMonad Making :=
  LawfulMonad.mk' Making bind_give (fun _ _ => rfl) bind_bind

@[simp] theorem run_pure (a : α) (count : Nat) : (pure a : Making α).run count = (a, count) := rfl

/-- Behind a first part, the rest goes on with its result and its count. -/
@[simp] theorem run_bind (first : Making α) (next : α → Making β) (count : Nat) :
    (first >>= next).run count = (next (first.run count).1).run (first.run count).2 := by
  induction first generalizing count with
  | give a => rfl
  | identify base rest ih => exact ih _ _
  | enter b rest ih => exact ih _

/-- Mapping the result leaves the counter alone. -/
@[simp] theorem run_map (f : α → β) (run : Making α) (count : Nat) :
    (f <$> run).run count = (f (run.run count).1, (run.run count).2) := by
  rw [map_eq_pure_bind, run_bind, run_pure]

end Making

/-! ### Results and failures -/

/-- What a run that starts from this count of identifiers gives. -/
def Run.outcome {α : Type} (run : Run α) (count : Nat) : Except BuilderError α :=
  (run.run.run count).1

/-- How many identifiers are counted behind it. -/
def Run.count {α : Type} (run : Run α) (count : Nat) : Nat := (run.run.run count).2

namespace Run

variable {α β : Type}

@[simp] theorem outcome_pure (a : α) (count : Nat) : outcome (pure a) count = .ok a := rfl

@[simp] theorem count_pure (a : α) (start : Nat) : (pure a : Run α).count start = start := rfl

/-- What is thrown is the outcome. -/
@[simp] theorem outcome_throw (e : BuilderError) (count : Nat) :
    outcome (throw e : Run α) count = .error e := rfl

/-- A result that is at hand is the outcome. -/
@[simp] theorem outcome_ofExcept (result : Except BuilderError α) (count : Nat) :
    outcome (ofExcept result) count = result := rfl

@[simp] theorem count_ofExcept (result : Except BuilderError α) (start : Nat) :
    (ofExcept result).count start = start := rfl

/-- What makes something cannot fail. -/
@[simp] theorem outcome_lift (making : Making α) (count : Nat) :
    outcome (liftM making) count = .ok (making.run count).1 := by
  change ((Except.ok <$> making).run count).1 = _
  rw [Making.run_map]

@[simp] theorem count_lift (making : Making α) (start : Nat) :
    (liftM making : Run α).count start = (making.run start).2 := by
  change ((Except.ok <$> making).run start).2 = _
  rw [Making.run_map]

/-- A run in two steps goes on from where the first one ended, unless it failed. -/
theorem outcome_bind (run : Run α) (next : α → Run β) (count : Nat) :
    outcome (run >>= next) count = match outcome run count with
      | .ok a => outcome (next a) (run.count count)
      | .error e => .error e := by
  change ((run.run >>= ExceptT.bindCont next).run count).1 = _
  rw [Making.run_bind]
  unfold outcome Run.count
  cases (run.run.run count).1 <;> rfl

/-- The second step counts on from the first one, unless that failed. -/
theorem count_bind (run : Run α) (next : α → Run β) (start : Nat) :
    (run >>= next).count start = match outcome run start with
      | .ok a => (next a).count (run.count start)
      | .error _ => run.count start := by
  change ((run.run >>= ExceptT.bindCont next).run start).2 = _
  rw [Making.run_bind]
  unfold outcome Run.count
  cases (run.run.run start).1 <;> rfl

/-- Whatever is counted before, the run gives something good, or fails as it may. -/
def Ensures (run : Run α) (good : α → Prop) (fails : BuilderError → Prop) : Prop :=
  ∀ count, match run.outcome count with
    | .ok a => good a
    | .error e => fails e

variable {good : α → Prop} {fails : BuilderError → Prop} {run : Run α}

/-- A run that fails does so in one of the ways that are ensured. -/
theorem Ensures.of_error (h : run.Ensures good fails) {count : Nat} {e : BuilderError}
    (he : run.outcome count = .error e) : fails e := by
  have hcount := h count
  rwa [he] at hcount

theorem ensures_pure {a : α} (h : good a) : Ensures (pure a) good fails := fun _ => h

theorem ensures_throw {e : BuilderError} (h : fails e) : Ensures (throw e) good fails := fun _ => h

theorem ensures_ofExcept {result : Except BuilderError α} (hgood : ∀ a, result = .ok a → good a)
    (hfails : ∀ e, result = .error e → fails e) : Ensures (ofExcept result) good fails := by
  intro count
  rw [outcome_ofExcept]
  cases result with
  | ok a => exact hgood a rfl
  | error e => exact hfails e rfl

theorem ensures_lift {making : Making α} (h : ∀ count, good (making.run count).1) :
    Ensures (liftM making : Run α) good fails := by
  intro count
  rw [outcome_lift]
  exact h count

/-- Making a builder ensures what holds of the builder. -/
theorem ensures_made {b : Builder} {good : Builder → Prop} (h : good b) :
    Ensures (liftM (made b) : Run Builder) good fails :=
  ensures_lift fun _ => h

/-- What the first run ensures may be used for the second. -/
theorem Ensures.bind {next : α → Run β} {goodNext : β → Prop} (h : run.Ensures good fails)
    (hnext : ∀ a, good a → (next a).Ensures goodNext fails) :
    (run >>= next).Ensures goodNext fails := by
  intro count
  have hfirst := h count
  rw [outcome_bind]
  cases hrun : run.outcome count with
  | ok a =>
    rw [hrun] at hfirst
    exact hnext a hfirst _
  | error e =>
    rw [hrun] at hfirst
    exact hfirst

end Run

end BuilderApi
