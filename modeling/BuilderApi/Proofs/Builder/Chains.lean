import BuilderApi.Builder.Construct
import BuilderApi.Proofs.Builder.Runs
import BuilderApi.Proofs.Results

/-!
# Constructing along chains of proxies

A constructor goes through proxies one inside another: arguments are put in front on the way in,
assignments are made on the way out, and nothing is known of the target before it is reached. Here
the proxies are followed **first**, into a chain with its target (`BuilderApi.Table.chain`). Then
the target is constructed once, with the fixed arguments of the chain, the one nearest the target
first; and the fixed assignments are made from the target outwards. By induction over the proxies
that are followed, this is what the constructor does (`BuilderApi.Session.construct_eq`).
-/

namespace BuilderApi

/-- A chain of proxies and its end. -/
structure ProxyChain where
  /-- The proxies with their entries, the outermost first. -/
  proxies : List (MethodSpec × Proxy)
  /-- The name at the end, which is no proxy. -/
  target : String
  /-- The entry at the end. -/
  spec : MethodSpec
deriving Inhabited

namespace ProxyChain

/-- The chain behind a further proxy. -/
def through (chain : ProxyChain) (spec : MethodSpec) (proxy : Proxy) : ProxyChain :=
  { chain with proxies := (spec, proxy) :: chain.proxies }

/-- The arguments that the target of a chain is given: fixed arguments, the one nearest the target
first, and then those of the call. -/
def arguments (chain : ProxyChain) (args : List Arg) : List Arg :=
  (chain.proxies.reverse.filterMap fun (_, proxy) => proxy.arg.map Arg.json) ++ args

/-- Makes the fixed assignments of the proxies, from the target outwards. -/
def finish (chain : ProxyChain) (b : Builder) : Builder :=
  chain.proxies.reverse.foldl (fun acc (spec, _) => acc.apply spec.set) b

/-- The argument of an outer proxy stands behind those of the chain. -/
theorem arguments_through (chain : ProxyChain) (spec : MethodSpec) (proxy : Proxy)
    (args : List Arg) : (chain.through spec proxy).arguments args =
      chain.arguments (proxy.arg.toList.map Arg.json ++ args) := by
  cases harg : proxy.arg <;> simp [through, arguments, harg]

/-- The assignments of an outer proxy are made behind those of the chain. -/
theorem finish_through (chain : ProxyChain) (spec : MethodSpec) (proxy : Proxy) (b : Builder) :
    (chain.through spec proxy).finish b = (chain.finish b).apply spec.set := by
  simp [through, finish]

/-- Assignments leave a builder with its entry. -/
theorem entry_finish (chain : ProxyChain) (b : Builder) : (chain.finish b).entry = b.entry := by
  unfold finish
  induction chain.proxies.reverse generalizing b with
  | nil => rfl
  | cons proxy rest ih => exact ih _

end ProxyChain

namespace Table

/-- Follows proxies from a name, where these were already followed. -/
def follow (table : Table) (proxies : List String) (name : String) :
    Except BuilderError ProxyChain :=
  match _hspec : table.builder name with
  | .error e => .error e
  | .ok spec =>
    match spec.ctr with
    | none => .ok ⟨[], name, spec⟩
    | some proxy =>
      if _hseen : name ∈ proxies then .error (.proxyCycle name)
      else (table.follow (name :: proxies) proxy.call).map fun chain => chain.through spec proxy
termination_by (table.unseen proxies).length
decreasing_by exact length_unseen_lt _hspec _hseen

/-- The chain that a name starts. -/
def chain (table : Table) (name : String) : Except BuilderError ProxyChain := table.follow [] name

variable {table : Table} {proxies : List String} {name : String} {spec : MethodSpec}

/-- A name that is not that of a builder has no chain. -/
theorem follow_of_error {e : BuilderError} (h : table.builder name = .error e) :
    table.follow proxies name = .error e := by
  rw [follow]
  split <;> simp_all

/-- The chain of a builder that is no proxy is its own end. -/
theorem follow_of_target (hspec : table.builder name = .ok spec) (hctr : spec.ctr = none) :
    table.follow proxies name = .ok ⟨[], name, spec⟩ := by
  rw [follow]
  split <;> simp_all

/-- A proxy that comes again has no chain. -/
theorem follow_of_mem {proxy : Proxy} (hspec : table.builder name = .ok spec)
    (hctr : spec.ctr = some proxy) (hseen : name ∈ proxies) :
    table.follow proxies name = .error (.proxyCycle name) := by
  rw [follow]
  split <;> simp_all

/-- The chain of a proxy goes through it. -/
theorem follow_of_not_mem {proxy : Proxy} (hspec : table.builder name = .ok spec)
    (hctr : spec.ctr = some proxy) (hseen : name ∉ proxies) : table.follow proxies name =
      (table.follow (name :: proxies) proxy.call).map fun chain => chain.through spec proxy := by
  rw [follow]
  split <;> simp_all

/-- Following proxies fails at a name that is not that of a builder, or where it comes back. -/
theorem exists_of_follow_eq_error {e : BuilderError} (h : table.follow proxies name = .error e) :
    ∃ last, table.builder last = .error e ∨ e = .proxyCycle last := by
  induction proxies, name using follow.induct table with
  | case1 proxies name failure hfailure =>
    rw [follow_of_error hfailure] at h
    obtain rfl := Except.error.inj h
    exact ⟨name, .inl hfailure⟩
  | case2 proxies name spec hspec hctr =>
    rw [follow_of_target hspec hctr] at h
    cases h
  | case3 proxies name spec hspec proxy hctr hseen =>
    rw [follow_of_mem hspec hctr hseen] at h
    exact ⟨name, .inr (Except.error.inj h).symm⟩
  | case4 proxies name spec hspec proxy hctr hseen ih =>
    rw [follow_of_not_mem hspec hctr hseen] at h
    exact ih (error_of_map_eq_error h)

end Table

namespace Session

variable {s : Session} {proxies : List String} {name : String} {args : List Arg} {spec : MethodSpec}

/-- A name that is not that of a builder cannot be constructed. -/
theorem constructVia_of_error {e : BuilderError} (h : s.table.builder name = .error e) :
    s.constructVia proxies name args = throw e := by
  rw [constructVia]
  split <;> simp_all

/-- A builder that is no proxy is constructed from the arguments. -/
theorem constructVia_of_target (hspec : s.table.builder name = .ok spec) (hctr : spec.ctr = none) :
    s.constructVia proxies name args = liftM (s.build name spec args) := by
  rw [constructVia]
  split <;> simp_all

/-- A proxy that comes again cannot be constructed. -/
theorem constructVia_of_mem {proxy : Proxy} (hspec : s.table.builder name = .ok spec)
    (hctr : spec.ctr = some proxy) (hseen : name ∈ proxies) :
    s.constructVia proxies name args = throw (.proxyCycle name) := by
  rw [constructVia]
  split <;> simp_all

/-- A proxy hands its argument on, and makes its assignments to what comes back. -/
theorem constructVia_of_not_mem {proxy : Proxy} (hspec : s.table.builder name = .ok spec)
    (hctr : spec.ctr = some proxy) (hseen : name ∉ proxies) : s.constructVia proxies name args =
      (fun b => b.apply spec.set) <$>
        s.constructVia (name :: proxies) proxy.call (proxy.arg.toList.map Arg.json ++ args) := by
  rw [constructVia]
  split <;> simp_all

/-- **Going through proxies is constructing the target of their chain**: the arguments that were put
in front on the way in are those of the chain, and the assignments on the way out are made to what
its target gives. -/
theorem constructVia_eq (s : Session) (proxies : List String) (name : String) (args : List Arg) :
    s.constructVia proxies name args =
      Run.ofExcept (s.table.follow proxies name) >>= fun chain =>
        chain.finish <$> (liftM (s.build chain.target chain.spec (chain.arguments args)) :
          Run Builder) := by
  induction proxies, name using Table.follow.induct s.table generalizing args with
  | case1 proxies name e he =>
    rw [constructVia_of_error he, Table.follow_of_error he]
    rfl
  | case2 proxies name spec hspec hctr =>
    rw [constructVia_of_target hspec hctr, Table.follow_of_target hspec hctr]
    exact (id_map _).symm
  | case3 proxies name spec hspec proxy hctr hseen =>
    rw [constructVia_of_mem hspec hctr hseen, Table.follow_of_mem hspec hctr hseen]
    rfl
  | case4 proxies name spec hspec proxy hctr hseen ih =>
    rw [constructVia_of_not_mem hspec hctr hseen, Table.follow_of_not_mem hspec hctr hseen, ih]
    cases s.table.follow (name :: proxies) proxy.call with
    | error e => rfl
    | ok chain =>
      have hok (c : ProxyChain) : Run.ofExcept (.ok c) = (pure c : Run ProxyChain) := rfl
      rw [Except.map, hok, hok, pure_bind, pure_bind, ProxyChain.arguments_through, ← comp_map]
      exact congrArg (· <$> _) (funext fun b => (chain.finish_through spec proxy b).symm)

/-- **A constructor follows the chain of its name first**, and fails as that does. -/
theorem construct_eq (s : Session) (name : String) (args : List Arg) : s.construct name args =
    Run.ofExcept (s.table.chain name) >>= fun chain =>
      liftM (s.build chain.target chain.spec (chain.arguments args)) >>= fun b =>
        (liftM (made (chain.finish b)) : Run Builder) := by
  rw [construct, constructVia_eq, Table.chain, bind_assoc]
  simp only [bind_map_left]

/-- A constructor gives what the target of its chain gives, with the assignments of the proxies. -/
theorem outcome_construct (name : String) (args : List Arg) (count : Nat) :
    (s.construct name args).outcome count = (s.table.chain name).map fun chain =>
      chain.finish ((s.build chain.target chain.spec (chain.arguments args)).run count).1 := by
  rw [construct_eq, Run.outcome_bind, Run.outcome_ofExcept]
  cases s.table.chain name with
  | error e => rfl
  | ok chain =>
    simp only [Run.count_ofExcept, Run.outcome_bind, Run.outcome_lift]
    rfl

end Session

end BuilderApi
