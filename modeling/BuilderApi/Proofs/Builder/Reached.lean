import BuilderApi.Proofs.Builder.Journal
import BuilderApi.Proofs.Table.Accepted

/-!
# What sessions reach

The steps of a session construct builders and call members of builders that were made before, in any
order; a step that fails leaves what it made. The journals that steps lead to are **reached**
(`BuilderApi.Session.Reached`).

A reached journal is **fair** (`BuilderApi.Session.Reached.fair`): its identifiers are numbered from
one, with bases that the table chooses, and each of its builders belongs to an entry of the table
that is a builder and no proxy. Constructors and calls of every kind keep a journal fair. A call
needs nothing of its receiver for that, since only an entry that is no proxy has members, and
companions come from constructors; so the argument goes by the nesting of calls alone.
-/

namespace BuilderApi

/-- The journals of a session that starts fresh. Each step constructs a builder of any entry or
calls any member of a builder that was made before, with any arguments. -/
inductive Session.Reached (s : Session) : Journal → Prop where
  /-- Nothing was made. -/
  | fresh : s.Reached .fresh
  /-- A builder is constructed. -/
  | construct {j : Journal} (h : s.Reached j) (name : String) (args : List Arg) :
    s.Reached ((s.construct name args).journal j)
  /-- A member is called. -/
  | call {j : Journal} (h : s.Reached j) {b : Builder} (hb : b ∈ j.builders) (method : String)
      (args : List Arg) : s.Reached ((s.call b method args).journal j)

/-! ### What a constructor makes -/

/-- The base of the identifiers that a binding makes. -/
def ArgBinding.autogen? : ArgBinding → Option String
  | .hidden _ autogen => autogen
  | _ => none

/-- The bases of the identifiers that bindings make from this position on, if so many arguments are
given. -/
def autogens (given position : Nat) : List ArgBinding → List String
  | [] => []
  | binding :: rest =>
    if binding.isTerminal then []
    else if position < given then autogens given (position + 1) rest
    else binding.autogen?.toList ++ autogens given (position + 1) rest

/-- A binding that makes no identifiers and does not take all arguments is passed over. -/
theorem autogens_cons_of_none {given position : Nat} {binding : ArgBinding} (rest : List ArgBinding)
    (hterminal : binding.isTerminal = false)
    (hautogen : position < given ∨ binding.autogen? = none) :
    autogens given position (binding :: rest) = autogens given (position + 1) rest := by
  rw [autogens, if_neg (by simp [hterminal])]
  split
  · rfl
  · next hposition => simp [hautogen.resolve_left hposition]

theorem autogens_cons_of_some {given position : Nat} {binding : ArgBinding} {base : String}
    (rest : List ArgBinding) (hposition : ¬position < given)
    (hautogen : binding.autogen? = some base) :
    autogens given position (binding :: rest) = base :: autogens given (position + 1) rest := by
  have hterminal : binding.isTerminal = false := by
    cases binding with
    | spread | merge => cases hautogen
    | _ => rfl
  rw [autogens, if_neg (by simp [hterminal]), if_neg hposition, hautogen]
  rfl

namespace Session

variable (s : Session)

/-- **Binding makes the identifiers of the bindings that have no argument**, and no builder. -/
theorem journal_bind (spec : MethodSpec) (args : List Arg) (position : Nat)
    (bindings : List ArgBinding) (b : Builder) (j : Journal) :
    ((s.bind spec args position bindings b).tell j).2 =
      (autogens args.length position bindings).foldl Journal.identify j := by
  induction bindings generalizing position b j with
  | nil => rfl
  | cons binding rest ih =>
    cases binding with
    | merge prop => rfl
    | spread prop => rfl
    | withDefault prop value =>
      exact (ih _ _ _).trans (by rw [autogens_cons_of_none rest rfl (.inr rfl)])
    | positional prop => exact (ih _ _ _).trans (by rw [autogens_cons_of_none rest rfl (.inr rfl)])
    | hidden field autogen =>
      unfold bind
      cases harg : args[position]? with
      | some arg =>
        have hposition := (List.getElem?_eq_some_iff.1 harg).1
        exact (ih _ _ _).trans (by rw [autogens_cons_of_none rest rfl (.inl hposition)])
      | none =>
        have hposition := Nat.not_lt.2 (List.getElem?_eq_none_iff.1 harg)
        cases autogen with
        | some base =>
          exact (ih _ _ _).trans (by rw [autogens_cons_of_some rest hposition rfl]; rfl)
        | none => exact (ih _ _ _).trans (by rw [autogens_cons_of_none rest rfl (.inr rfl)])

/-- Constructing makes the identifiers of its bindings, and no builder before the last one. -/
theorem journal_build (name : String) (spec : MethodSpec) (args : List Arg) (j : Journal) :
    ((s.build name spec args).tell j).2 =
      (autogens args.length 0 (spec.args.getD [])).foldl Journal.identify j := by
  unfold build
  cases spec.args with
  | some bindings => exact s.journal_bind spec args 0 bindings _ j
  | none => rfl

/-- A builder that is told belongs to the entry that it is made of. -/
theorem entry_tell_build (name : String) (spec : MethodSpec) (args : List Arg) (j : Journal) :
    ((s.build name spec args).tell j).1.entry = name := by
  have hrun := congrArg Prod.fst ((s.build name spec args).run_count j)
  rw [← hrun, entry_build]

end Session

/-- The bindings of an entry's own constructor; a proxy has none. -/
def Entry.ownBindings : Entry → List ArgBinding
  | .method spec => if spec.isProxy then [] else spec.args.getD []
  | .external _ => []

/-- The bases of the identifiers that the constructors of a table make. -/
def Table.bases (table : Table) : List String :=
  table.flatMap fun field => field.2.ownBindings.filterMap ArgBinding.autogen?

/-- The builder belongs to an entry of the table that is a builder and no proxy. -/
def Session.Standing (s : Session) (b : Builder) : Prop :=
  ∃ spec, s.table.builder b.entry = .ok spec ∧ spec.ctr = none

/-- A journal as it should be. -/
structure Journal.Fair (s : Session) (j : Journal) : Prop where
  /-- The identifiers are numbered from one, without a gap. -/
  numbers : j.identifiers.map Identifier.number = (List.range' 1 j.count).reverse
  /-- Their bases are those of the table. -/
  bases : ∀ identifier ∈ j.identifiers, identifier.base ∈ s.table.bases
  /-- The builders belong to entries of the table. -/
  builders : ∀ b ∈ j.builders, s.Standing b

/-- Is the builder in the journal, if it is one? -/
def Journal.Has (j : Journal) : Arg → Prop
  | .builder b => b ∈ j.builders
  | .json _ => True

namespace Journal.Fair

variable {s : Session} {j : Journal}

theorem fresh (s : Session) : Journal.fresh.Fair s :=
  ⟨rfl, by simp [Journal.fresh], by simp [Journal.fresh]⟩

/-- An identifier keeps a journal fair, if its base is one of the table. -/
theorem identify (h : j.Fair s) {base : String} (hbase : base ∈ s.table.bases) :
    (j.identify base).Fair s where
  numbers := by
    rw [Journal.count_identify, List.range'_1_concat, List.reverse_append, ← h.numbers,
      Nat.add_comm 1]
    rfl
  bases := List.forall_mem_cons.2 ⟨hbase, h.bases⟩
  builders := h.builders

/-- A builder that stands keeps a journal fair. -/
theorem enter (h : j.Fair s) {b : Builder} (hb : s.Standing b) : (j.enter b).Fair s where
  numbers := h.numbers
  bases := h.bases
  builders := List.forall_mem_cons.2 ⟨hb, h.builders⟩

theorem foldl_identify (h : j.Fair s) {bases : List String}
    (hbases : ∀ base ∈ bases, base ∈ s.table.bases) :
    (bases.foldl Journal.identify j).Fair s := by
  induction bases generalizing j with
  | nil => exact h
  | cons base bases ih =>
    rw [List.forall_mem_cons] at hbases
    exact ih (h.identify hbases.1) hbases.2

end Journal.Fair

/-! ### The bases and the builders of a table -/

/-- Identifiers that are given come from bindings. -/
theorem exists_of_mem_autogens {given position : Nat} {bindings : List ArgBinding} {base : String}
    (h : base ∈ autogens given position bindings) :
    ∃ binding ∈ bindings, binding.autogen? = some base := by
  induction bindings generalizing position with
  | nil => cases h
  | cons binding rest ih =>
    rw [autogens] at h
    split at h
    · cases h
    · split at h
      · obtain ⟨other, hother, hbase⟩ := ih h
        exact ⟨other, List.mem_cons_of_mem _ hother, hbase⟩
      · rcases List.mem_append.1 h with hbase | h
        · exact ⟨binding, List.mem_cons_self, by simpa using hbase⟩
        · obtain ⟨other, hother, hbase⟩ := ih h
          exact ⟨other, List.mem_cons_of_mem _ hother, hbase⟩

namespace Table

variable {table : Table} {name base : String} {spec : MethodSpec}

/-- The bases of a table are those of the bindings of its builders. -/
theorem mem_bases_iff : base ∈ table.bases ↔ ∃ name spec, (name, .method spec) ∈ table ∧
    spec.ctr = none ∧
    ∃ binding ∈ spec.args.getD [], binding.autogen? = some base := by
  rw [bases, List.mem_flatMap]
  constructor
  · rintro ⟨⟨name, entry⟩, hfield, hmem⟩
    obtain ⟨binding, hbinding, hbase⟩ := List.mem_filterMap.1 hmem
    cases entry with
    | external spec => cases hbinding
    | method spec =>
      cases hctr : spec.ctr with
      | some proxy => simp [Entry.ownBindings, MethodSpec.isProxy, hctr] at hbinding
      | none =>
        rw [Entry.ownBindings, if_neg (by simp [MethodSpec.isProxy, hctr])] at hbinding
        exact ⟨name, spec, hfield, hctr, binding, hbinding, hbase⟩
  · rintro ⟨name, spec, hfield, hctr, binding, hbinding, hbase⟩
    refine ⟨_, hfield, List.mem_filterMap.2 ⟨binding, ?_, hbase⟩⟩
    rwa [Entry.ownBindings, if_neg (by simp [MethodSpec.isProxy, hctr])]

/-- A chain of proxies ends at an entry of the table that is no proxy. -/
theorem builder_target {proxies : List String} {chain : ProxyChain}
    (h : table.follow proxies name = .ok chain) :
    table.builder chain.target = .ok chain.spec ∧ chain.spec.ctr = none := by
  induction proxies, name using Table.follow.induct table generalizing chain with
  | case1 proxies name e he =>
    rw [follow_of_error he] at h
    cases h
  | case2 proxies name spec hspec hctr =>
    rw [follow_of_target hspec hctr] at h
    obtain rfl := Except.ok.inj h
    exact ⟨hspec, hctr⟩
  | case3 proxies name spec hspec proxy hctr hseen =>
    rw [follow_of_mem hspec hctr hseen] at h
    cases h
  | case4 proxies name spec hspec proxy hctr hseen ih =>
    rw [follow_of_not_mem hspec hctr hseen] at h
    obtain ⟨rest, hrest, rfl⟩ := exists_of_map_eq_ok h
    exact @ih rest hrest

end Table

/-! ### What keeps a journal fair -/

namespace Run

variable {α β : Type} {s : Session}

/-- A run keeps journals fair, and what it gives from a journal with the one property has the
other. -/
def Keeps (s : Session) (pre : Journal → Prop) (run : Run α) (post : α → Journal → Prop) : Prop :=
  ∀ j : Journal, j.Fair s → pre j →
    (run.journal j).Fair s ∧ ∀ a, run.told j = .ok a → post a (run.journal j)

variable {pre : Journal → Prop} {post : α → Journal → Prop} {after : β → Journal → Prop}

theorem keeps_pure {a : α} (h : ∀ j, pre j → post a j) : Keeps s pre (pure a) post := by
  rintro j hfair hpre
  refine ⟨hfair, fun a' ha => ?_⟩
  cases ha
  exact h j hpre

theorem keeps_throw (e : BuilderError) : Keeps s pre (throw e) post := by
  rintro j hfair -
  refine ⟨hfair, fun a' ha => ?_⟩
  cases ha

/-- A result that is at hand leaves the journal as it is. -/
theorem keeps_ofExcept (result : Except BuilderError α) :
    Keeps s pre (ofExcept result) fun a j => result = .ok a ∧ pre j :=
  fun _ hfair hpre => ⟨hfair, fun _ ha => ⟨ha, hpre⟩⟩

/-- What makes something keeps a journal fair if the telling does. -/
theorem keeps_lift {making : Making α} (h : ∀ j : Journal, j.Fair s → pre j →
    (making.tell j).2.Fair s ∧ post (making.tell j).1 (making.tell j).2) :
    Keeps s pre (liftM making) post := by
  intro j hfair hpre
  rw [journal_lift, told_lift]
  refine ⟨(h j hfair hpre).1, fun a ha => ?_⟩
  obtain rfl := Except.ok.inj ha
  exact (h j hfair hpre).2

/-- What the first run keeps may be used for the second. -/
theorem Keeps.bind {run : Run α} {next : α → Run β} (h : Keeps s pre run post)
    (hnext : ∀ a, Keeps s (post a) (next a) after) : Keeps s pre (run >>= next) after := by
  intro j hfair hpre
  obtain ⟨hfair, hpost⟩ := h j hfair hpre
  rw [journal_bind, told_bind]
  cases hfirst : run.told j with
  | ok a => exact hnext a _ hfair (hpost a hfirst)
  | error e =>
    refine ⟨hfair, fun b hb => ?_⟩
    cases hb

/-- A builder that is made stands in the journal. -/
theorem keeps_made {b : Builder} (h : ∀ j : Journal, j.Fair s → pre j → s.Standing b) :
    Keeps s pre (liftM (made b)) fun b j => b ∈ j.builders :=
  keeps_lift fun j hfair hpre => ⟨hfair.enter (h j hfair hpre), List.mem_cons_self⟩

theorem Keeps.of_any {run : Run α} (h : Keeps s (fun _ => True) run post) : Keeps s pre run post :=
  fun j hfair _ => h j hfair trivial

end Run

namespace Session

variable {s : Session} {call : Caller} {pre : Journal → Prop}

open Run (Keeps keeps_pure keeps_throw keeps_ofExcept keeps_lift keeps_made)

/-- **Constructing a builder keeps a journal fair**, and enters the builder. -/
theorem keeps_construct (name : String) (args : List Arg) :
    Keeps s (fun _ => True) (s.construct name args) fun b j => b ∈ j.builders := by
  rw [construct_eq]
  refine (keeps_ofExcept _).bind fun chain => ?_
  by_cases hchain : s.table.chain name = .ok chain
  · obtain ⟨hspec, hctr⟩ := Table.builder_target hchain
    have hbuild : Keeps s (fun _ => s.table.chain name = .ok chain ∧ True)
        (liftM (s.build chain.target chain.spec (chain.arguments args)))
        fun b _ => b.entry = chain.target := by
      refine keeps_lift fun j hfair _ => ⟨?_, s.entry_tell_build _ _ _ j⟩
      rw [journal_build]
      refine hfair.foldl_identify fun base hbase => Table.mem_bases_iff.2 ?_
      exact ⟨_, _, Fields.mem_of_get? (Table.get?_of_builder hspec), hctr,
        exists_of_mem_autogens hbase⟩
    refine hbuild.bind fun b => keeps_made fun j _ hb => ?_
    exact ⟨chain.spec, by rw [ProxyChain.entry_finish, hb, hspec], hctr⟩
  · exact fun j hfair hpre => absurd hpre.1 hchain

/-- Calls that keep journals fair and enter the builders that they give. -/
def KeepsCalls (s : Session) (call : Caller) : Prop :=
  ∀ b method args, Keeps s (fun _ => True) (call b method args) fun arg j => j.Has arg

/-- A transfer gives a builder of the journal. -/
theorem keeps_transfer (hcall : KeepsCalls s call) (b companion : Builder) (pass : Delegation) :
    Keeps s (fun j => companion ∈ j.builders) (transfer call b companion pass)
      fun out j => out ∈ j.builders := by
  unfold transfer
  cases pass.selfMethod with
  | none =>
    refine keeps_made fun j hfair hcompanion => ?_
    obtain ⟨spec, hspec⟩ := hfair.builders companion hcompanion
    exact ⟨spec, by rwa [Builder.entry_assign]⟩
  | some method =>
    refine (hcall companion method _).of_any.bind fun arg => ?_
    cases arg with
    | builder out => exact keeps_pure fun _ hout => hout
    | json value => exact keeps_throw _

/-- A delegation gives a builder of the journal, or no builder. -/
theorem keeps_delegate (hcall : KeepsCalls s call) (b : Builder) (pass : Delegation)
    (args : List Arg) :
    Keeps s (fun _ => True) (s.delegate call b pass args) fun arg j => j.Has arg := by
  unfold delegate
  dsimp only
  cases pass.prop with
  | some prop =>
    refine (keeps_construct _ _).bind fun companion => ?_
    exact (keeps_transfer hcall b companion pass).bind fun companion =>
      (hcall companion prop _).of_any
  | none =>
    refine (keeps_construct _ _).bind fun companion => ?_
    exact (keeps_transfer hcall b companion pass).bind fun companion =>
      keeps_pure fun _ hout => hout

/-- An accessor gives a builder of the journal, or no builder. -/
theorem keeps_give {arg : Arg} (h : ∀ b, arg = .builder b → s.Standing b) :
    Keeps s pre (liftM (give arg)) fun arg j => j.Has arg := by
  cases arg with
  | builder b => exact keeps_lift fun j hfair _ => ⟨hfair.enter (h b rfl), List.mem_cons_self⟩
  | json value => exact keeps_lift fun j hfair _ => ⟨hfair, trivial⟩

/-- **Calls keep a journal fair** if the calls of companions do. -/
theorem keeps_callWith (hcall : KeepsCalls s call) : KeepsCalls s (s.callWith call) := by
  intro b method args
  refine (keeps_ofExcept _).bind fun spec => ?_
  cases hfind : Member.find spec (s.shapes.shape b.entry) method with
  | none => exact keeps_throw _
  | some member =>
    -- an entry that has members is no proxy
    have hctr : spec.ctr = none := by
      cases hctr : spec.ctr with
      | none => rfl
      | some proxy =>
        rw [Member.find, Member.plan_of_isProxy (by simp [MethodSpec.isProxy, hctr])] at hfind
        cases hfind
    by_cases hspec : s.table.builder b.entry = .ok spec
    · have hstanding : ∀ out : Builder, out.entry = b.entry → s.Standing out := fun out hout =>
        ⟨spec, hout ▸ hspec, hctr⟩
      cases hkind : member.kind with
      | property schema array =>
        simpa only [hkind] using keeps_give fun out hout => hstanding out (entry_access hout)
      | extension ext =>
        simpa only [hkind] using keeps_give fun out hout => hstanding out (entry_extend hout)
      | delegation pass => simpa only [hkind] using (keeps_delegate hcall b pass args).of_any
      | invocation invocation =>
        simp only [hkind]
        unfold invoke
        cases Fields.get? s.functions invocation.call with
        | none => exact keeps_throw _
        | some f => exact keeps_pure fun _ _ => trivial
    · exact fun j hfair hpre => absurd hpre.1 hspec

/-- However deep they are nested, calls keep a journal fair. -/
theorem keeps_callWithin (bound : Nat) : KeepsCalls s (s.callWithin bound) := by
  induction bound with
  | zero => exact keeps_callWith fun b method args => keeps_throw _
  | succ bound ih => exact keeps_callWith ih

/-- **Reached journals are fair.** -/
theorem Reached.fair {j : Journal} (h : s.Reached j) : j.Fair s := by
  induction h with
  | fresh => exact .fresh s
  | construct h name args ih => exact (keeps_construct name args _ ih trivial).1
  | call h hb method args ih => exact (keeps_callWithin _ _ method args _ ih trivial).1

end Session

end BuilderApi
