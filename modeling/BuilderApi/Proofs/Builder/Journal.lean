import BuilderApi.Builder.Call
import BuilderApi.Proofs.Builder.Unknown

/-!
# Journals of sessions

A session counts the identifiers that it makes, and forgets them and the builders that it makes on
the way. To speak about all of them, a run is **told** with a journal in place of the count: each
new identifier and each builder goes into the journal. It is the same run that is told, so it gives
what it gives to the session, and the journal counts what the session counts
(`BuilderApi.Making.run_count`). What is proved about journals is therefore true of the session.
-/

namespace BuilderApi

/-- What was made in a session, the latest first. -/
structure Journal where
  /-- The identifiers. -/
  identifiers : List Identifier
  /-- The builders: results, companions, and what companions become. -/
  builders : List Builder
deriving Inhabited

namespace Journal

/-- The journal of a session in which nothing was made. -/
def fresh : Journal := ⟨[], []⟩

/-- The number of identifiers. -/
def count (j : Journal) : Nat := j.identifiers.length

/-- The journal with a further identifier. -/
def identify (j : Journal) (base : String) : Journal :=
  { j with identifiers := ⟨base, j.count + 1⟩ :: j.identifiers }

/-- The journal with a further builder. -/
def enter (j : Journal) (b : Builder) : Journal := { j with builders := b :: j.builders }

@[simp] theorem count_identify (j : Journal) (base : String) :
    (j.identify base).count = j.count + 1 := rfl

@[simp] theorem count_enter (j : Journal) (b : Builder) : (j.enter b).count = j.count := rfl

@[simp] theorem builders_identify (j : Journal) (base : String) :
    (j.identify base).builders = j.builders := rfl

@[simp] theorem identifiers_enter (j : Journal) (b : Builder) :
    (j.enter b).identifiers = j.identifiers := rfl

end Journal

/-! ### Told runs -/

namespace Making

variable {α β : Type}

/-- The result, and the journal behind it, where this is the journal in front of it. -/
def tell : Making α → Journal → α × Journal
  | give a, j => (a, j)
  | identify base next, j => (next (Identifier.text ⟨base, j.count + 1⟩)).tell (j.identify base)
  | enter b next, j => next.tell (j.enter b)

/-- **Telling is running**: from the count of the journal both give the same, and count the same. -/
theorem run_count (making : Making α) (j : Journal) :
    making.run j.count = ((making.tell j).1, (making.tell j).2.count) := by
  induction making generalizing j with
  | give a => rfl
  | identify base next ih => exact ih _ (j.identify base)
  | enter b next ih => exact ih (j.enter b)

@[simp] theorem tell_pure (a : α) (j : Journal) : (pure a : Making α).tell j = (a, j) := rfl

/-- Behind a first part, the rest goes on with its result and its journal. -/
@[simp] theorem tell_bind (first : Making α) (next : α → Making β) (j : Journal) :
    (first >>= next).tell j = (next (first.tell j).1).tell (first.tell j).2 := by
  induction first generalizing j with
  | give a => rfl
  | identify base rest ih => exact ih _ _
  | enter b rest ih => exact ih _

@[simp] theorem tell_map (f : α → β) (making : Making α) (j : Journal) :
    (f <$> making).tell j = (f (making.tell j).1, (making.tell j).2) := by
  rw [map_eq_pure_bind, tell_bind, tell_pure]

end Making

namespace Run

variable {α β : Type}

/-- What a run that is told from this journal on gives. -/
def told (run : Run α) (j : Journal) : Except BuilderError α := (run.run.tell j).1

/-- The journal behind it. -/
def journal (run : Run α) (j : Journal) : Journal := (run.run.tell j).2

/-- What a run tells is its outcome from the counter of the journal. -/
theorem outcome_count (run : Run α) (j : Journal) : run.outcome j.count = run.told j :=
  congrArg Prod.fst (run.run.run_count j)

/-- The journal counts what the session counts. -/
theorem count_count (run : Run α) (j : Journal) : run.count j.count = (run.journal j).count :=
  congrArg Prod.snd (run.run.run_count j)

@[simp] theorem told_lift (making : Making α) (j : Journal) :
    (liftM making : Run α).told j = .ok (making.tell j).1 := by
  change ((Except.ok <$> making).tell j).1 = _
  rw [Making.tell_map]

@[simp] theorem journal_lift (making : Making α) (j : Journal) :
    (liftM making : Run α).journal j = (making.tell j).2 := by
  change ((Except.ok <$> making).tell j).2 = _
  rw [Making.tell_map]

/-- The second step is told from where the first one ended, unless that failed. -/
theorem told_bind (run : Run α) (next : α → Run β) (j : Journal) :
    (run >>= next).told j = match run.told j with
      | .ok a => (next a).told (run.journal j)
      | .error e => .error e := by
  change ((run.run >>= ExceptT.bindCont next).tell j).1 = _
  rw [Making.tell_bind]
  unfold told journal
  cases (run.run.tell j).1 <;> rfl

/-- The second step writes on in the journal of the first one, unless that failed. -/
theorem journal_bind (run : Run α) (next : α → Run β) (j : Journal) :
    (run >>= next).journal j = match run.told j with
      | .ok a => (next a).journal (run.journal j)
      | .error _ => run.journal j := by
  change ((run.run >>= ExceptT.bindCont next).tell j).2 = _
  rw [Making.tell_bind]
  unfold told journal
  cases (run.run.tell j).1 <;> rfl

end Run

/-- The journal behind a constructor has what the target of its chain makes, and the builder. -/
theorem Session.journal_construct (s : Session) (name : String) (args : List Arg) (j : Journal) :
    (s.construct name args).journal j = match s.table.chain name with
      | .error _ => j
      | .ok chain =>
        let built := (s.build chain.target chain.spec (chain.arguments args)).tell j
        built.2.enter (chain.finish built.1) := by
  rw [construct_eq, Run.journal_bind]
  cases s.table.chain name with
  | error e => rfl
  | ok chain =>
    change Run.journal (_ >>= _) j = _
    rw [Run.journal_bind, Run.told_lift, Run.journal_lift]
    rfl

/-- The runs of a session are told as they are. -/
structure Session.Faithful (s : Session) : Prop where
  /-- A new identifier is the text of the one that goes into the journal. -/
  identifier : ∀ base (j : Journal), (newIdentifier base).run j.count =
    (Identifier.text ⟨base, j.count + 1⟩, (j.identify base).count)
  /-- Constructors give the same and count the same. -/
  construct : ∀ name args (j : Journal), (s.construct name args).outcome j.count =
      (s.construct name args).told j ∧
    (s.construct name args).count j.count = ((s.construct name args).journal j).count
  /-- Calls give the same and count the same. -/
  call : ∀ b method args (j : Journal), (s.call b method args).outcome j.count =
      (s.call b method args).told j ∧
    (s.call b method args).count j.count = ((s.call b method args).journal j).count

/-- **Told runs are the runs of the session.** -/
theorem Session.faithful (s : Session) : s.Faithful where
  identifier _ _ := rfl
  construct _ _ j := ⟨Run.outcome_count _ j, Run.count_count _ j⟩
  call _ _ _ j := ⟨Run.outcome_count _ j, Run.count_count _ j⟩

end BuilderApi
