import BuilderApi.Proofs.Builder.Reached
import Mathlib.Data.List.Nodup

/-!
# Proxy chains

Going from a name to what it stands for, as long as it is a proxy, is a **route**
(`BuilderApi.Table.Route`). A route stops where it cannot go on, or where it comes back to a proxy
for the first time (`BuilderApi.Table.Stops`). From each name of a finite table some route stops
(`BuilderApi.Table.exists_stops`), and each route that stops is what a constructor follows: where it
stops decides about failure, and otherwise the constructor at the end is given the fixed arguments
of the route, and the fixed assignments are made on the way back
(`BuilderApi.Session.construct_of_stops`).

A constructor goes through proxies one inside another, with the names that it was called for before.
By induction over the route it comes to the end of the route with all names of the route, with the
fixed arguments in front, and with the fixed assignments still to be made
(`BuilderApi.Session.constructVia_of_route`). For this the names have to be distinct; they are,
because from one name there is only one route that cannot go on, so a name that occurred twice would
begin a shorter route with the same end.
-/

namespace BuilderApi

/-! ### Routes -/

/-- A proxy that a route goes through. -/
structure ProxyStep where
  /-- Its name. -/
  name : String
  /-- Its entry. -/
  spec : MethodSpec
  /-- What it stands for. -/
  proxy : Proxy

namespace Table

variable {table : Table} {name last : String} {path : List ProxyStep}

/-- From a name, through proxies, to a name. -/
inductive Route (table : Table) : String → List ProxyStep → String → Prop where
  /-- The name itself is reached through no proxy. -/
  | here (name : String) : Route table name [] name
  /-- A proxy leads to the name that it calls. -/
  | through {name last : String} {spec : MethodSpec} {proxy : Proxy} {path : List ProxyStep}
    (hspec : table.builder name = .ok spec) (hproxy : spec.ctr = some proxy)
    (rest : Route table proxy.call path last) : Route table name (⟨name, spec, proxy⟩ :: path) last

/-- The end of a route, and what a constructor makes of it: a failure, or the entry of the
target. -/
inductive Stops (table : Table) (path : List ProxyStep) (last : String) :
    Except BuilderError MethodSpec → Prop where
  /-- The name is not in the table. -/
  | unknown (h : Fields.get? table last = none) :
      Stops table path last (.error (.unknownEntry last))
  /-- The name is that of a re-export. -/
  | external {spec : ExternalSpec} (h : Fields.get? table last = some (.external spec)) :
    Stops table path last (.error (.externalEntry last))
  /-- The name is that of a proxy of the route, and the first one that comes again. -/
  | cycle (hfirst : (path.map ProxyStep.name).Nodup) (h : last ∈ path.map ProxyStep.name) :
    Stops table path last (.error (.proxyCycle last))
  /-- The name is that of a builder that is no proxy. -/
  | target {spec : MethodSpec} (h : Fields.get? table last = some (.method spec))
      (hctr : spec.ctr = none) : Stops table path last (.ok spec)

/-- No route goes on from here. -/
def Stuck (table : Table) (name : String) : Prop :=
  ∀ spec, table.builder name = .ok spec → spec.ctr = none

/-- There is only one route to where no route goes on. -/
theorem Route.path_unique {last' : String} {path' : List ProxyStep} (h : table.Route name path last)
    (h' : table.Route name path' last') (hlast : table.Stuck last) (hlast' : table.Stuck last') :
    path = path' := by
  induction h generalizing path' with
  | here name =>
    cases h' with
    | here => rfl
    | through hspec hproxy => simp [hlast _ hspec] at hproxy
  | through hspec hproxy rest ih =>
    cases h' with
    | here => simp [hlast' _ hspec] at hproxy
    | through hspec' hproxy' rest' =>
      obtain rfl := Except.ok.inj (hspec.symm.trans hspec')
      obtain rfl := Option.some.inj (hproxy.symm.trans hproxy')
      rw [ih rest' hlast]

/-- A route can be started at each of its proxies. -/
theorem Route.exists_of_mem (h : table.Route name path last) {step : ProxyStep}
    (hstep : step ∈ path) :
    table.builder step.name = .ok step.spec ∧ step.spec.ctr = some step.proxy ∧
      ∃ rest, table.Route step.name rest last ∧ rest.length ≤ path.length := by
  induction h with
  | here => cases hstep
  | @through name last spec proxy path hspec hproxy rest ih =>
    rcases List.mem_cons.1 hstep with rfl | hstep
    · exact ⟨hspec, hproxy, _, .through hspec hproxy rest, Nat.le_refl _⟩
    · obtain ⟨hstepSpec, hctr, suffix, hsuffix, hlength⟩ := ih hstep
      exact ⟨hstepSpec, hctr, suffix, hsuffix, Nat.le_succ_of_le hlength⟩

/-- A route that cannot go on has gone through no proxy twice. -/
theorem Route.nodup_names (h : table.Route name path last) (hlast : table.Stuck last) :
    (path.map ProxyStep.name).Nodup := by
  induction h with
  | here => exact List.nodup_nil
  | @through name last spec proxy path hspec hproxy rest ih =>
    refine List.nodup_cons.2 ⟨fun hmem => ?_, ih hlast⟩
    obtain ⟨step, hstep, rfl⟩ := List.mem_map.1 hmem
    obtain ⟨-, -, suffix, hsuffix, hlength⟩ := rest.exists_of_mem hstep
    have hsame := (Route.through hspec hproxy rest).path_unique hsuffix hlast hlast
    rw [← hsame, List.length_cons] at hlength
    omega

theorem Stuck.of_get? {found : Option Entry} (h : Fields.get? table last = found)
    (hproxy : ∀ spec, found = some (.method spec) → spec.ctr = none) : table.Stuck last := by
  intro spec hspec
  exact hproxy spec (h ▸ get?_of_builder hspec)

theorem builder_eq_of_get? {spec : MethodSpec} (h : Fields.get? table name = some (.method spec)) :
    table.builder name = .ok spec := by
  rw [builder, h]

/-- A route goes on until it cannot, or meets a proxy that was followed in front of it, or one of
its own. -/
theorem exists_route (table : Table) (proxies : List String) (name : String) :
    ∃ path last, table.Route name path last ∧ (path.map ProxyStep.name).Nodup ∧
      (path.map ProxyStep.name).Disjoint proxies ∧
      (table.Stuck last ∨ last ∈ proxies ∨ last ∈ path.map ProxyStep.name) := by
  induction proxies, name using Table.follow.induct table with
  | case1 proxies name e he =>
    refine ⟨[], name, .here name, List.nodup_nil, List.disjoint_nil_left _,
      .inl fun spec hspec => ?_⟩
    rw [hspec] at he
    cases he
  | case2 proxies name spec hspec hctr =>
    refine ⟨[], name, .here name, List.nodup_nil, List.disjoint_nil_left _,
      .inl fun other hother => ?_⟩
    rwa [← Except.ok.inj (hspec.symm.trans hother)]
  | case3 proxies name spec hspec proxy hctr hseen =>
    exact ⟨[], name, .here name, List.nodup_nil, List.disjoint_nil_left _, .inr (.inl hseen)⟩
  | case4 proxies name spec hspec proxy hctr hseen ih =>
    obtain ⟨path, last, hroute, hnodup, hdisjoint, hlast⟩ := ih
    rw [List.disjoint_cons_right] at hdisjoint
    refine ⟨_, last, .through hspec hctr hroute, List.nodup_cons.2 ⟨hdisjoint.1, hnodup⟩,
      List.disjoint_cons_left.2 ⟨hseen, hdisjoint.2⟩, ?_⟩
    rcases hlast with hstuck | hmem | hagain
    · exact .inl hstuck
    · rcases List.mem_cons.1 hmem with rfl | hmem
      · exact .inr (.inr List.mem_cons_self)
      · exact .inr (.inl hmem)
    · exact .inr (.inr (List.mem_cons_of_mem _ hagain))

/-- **From each name of a table a route stops.** -/
theorem exists_stops (table : Table) (name : String) :
    ∃ path last result, table.Route name path last ∧ table.Stops path last result := by
  obtain ⟨path, last, hroute, hnodup, -, hlast⟩ := exists_route table [] name
  cases hget : Fields.get? table last with
  | none => exact ⟨path, last, _, hroute, .unknown hget⟩
  | some entry =>
    cases entry with
    | external spec => exact ⟨path, last, _, hroute, .external hget⟩
    | method spec =>
      cases hctr : spec.ctr with
      | none => exact ⟨path, last, _, hroute, .target hget hctr⟩
      | some proxy =>
        refine ⟨path, last, _, hroute, .cycle hnodup ?_⟩
        have hbuilder := builder_eq_of_get? hget
        rcases hlast with hstuck | hmem | hagain
        · simp [hstuck spec hbuilder] at hctr
        · cases hmem
        · exact hagain

end Table

/-! ### Constructors through proxies -/

/-- The fixed arguments of a route, the one nearest its end first. -/
def fixedArguments (path : List ProxyStep) : List Arg := path.reverse.filterMap fun step =>
    step.proxy.arg.map Arg.json

/-- The fixed assignments of a route, made from its end outwards. -/
def assigned (path : List ProxyStep) (b : Builder) : Builder :=
  path.reverse.foldl (fun acc step => acc.apply step.spec.set) b

theorem Builder.get?_apply (b : Builder) {set : Fields Json} (h : (Fields.names set).Nodup)
    (prop : String) :
    (b.apply set).get? prop = (Fields.get? set prop).or (b.get? prop) := by
  rw [get?, apply, Fields.get?_putAll, Fields.get?_reverse h]
  rfl

theorem fixedArguments_cons (step : ProxyStep) (path : List ProxyStep) :
    fixedArguments (step :: path) = fixedArguments path ++ step.proxy.arg.toList.map Arg.json := by
  cases harg : step.proxy.arg <;> simp [fixedArguments, harg]

theorem assigned_cons (step : ProxyStep) (path : List ProxyStep) (b : Builder) :
    assigned (step :: path) b = (assigned path b).apply step.spec.set := by
  simp [assigned]

/-- **The outermost proxy has the last word.** -/
theorem get?_assigned {path : List ProxyStep}
    (h : ∀ step ∈ path, (Fields.names step.spec.set).Nodup) (b : Builder) (prop : String) :
    (assigned path b).get? prop =
      (path.findSome? fun step => Fields.get? step.spec.set prop).or (b.get? prop) := by
  induction path with
  | nil => rfl
  | cons step path ih =>
    obtain ⟨hstep, hpath⟩ := List.forall_mem_cons.1 h
    rw [assigned_cons, Builder.get?_apply _ hstep, ih hpath, List.findSome?_cons]
    cases Fields.get? step.spec.set prop <;> rfl

namespace Session

variable {s : Session}

/-- What a constructor gives through the proxies of a route with this end. -/
structure Relays (s : Session) (name : String) (path : List ProxyStep) (last : String)
    (args : List Arg) (count : Nat) (b : Builder) : Prop where
  /-- The constructor at the end gives this builder from the fixed arguments and those of the
  call. -/
  target : (s.construct last (fixedArguments path ++ args)).outcome count = .ok b
  /-- The fixed assignments are made to it. -/
  outcome : (s.construct name args).outcome count = .ok (assigned path b)
  /-- Proxies make no identifiers of their own. -/
  identifiers : (s.construct name args).count count =
    (s.construct last (fixedArguments path ++ args)).count count
  /-- Of the proxies that assign a property, the outermost one decides, and they all decide before
  the target. -/
  outermost : ∀ prop, (assigned path b).get? prop =
    (path.findSome? fun step => Fields.get? step.spec.set prop).or (b.get? prop)

/-- What a constructor makes of the place where its route stops. -/
def Resolves (s : Session) (name : String) (path : List ProxyStep) (last : String) :
    Except BuilderError MethodSpec → Prop
  | .error e => ∀ args count,
    (s.construct name args).outcome count = .error e ∧ (s.construct name args).count count = count
  | .ok _ => ∀ args count, ∃ b, s.Relays name path last args count b

/-- **A constructor goes along a route**: with the names of the route behind it and its fixed
arguments in front, it comes to the end, and to what it gives there the assignments of the route are
made. -/
theorem constructVia_of_route {path : List ProxyStep} {name last : String}
    (h : s.table.Route name path last) {proxies : List String}
    (hnodup : (path.map ProxyStep.name).Nodup)
    (hdisjoint : (path.map ProxyStep.name).Disjoint proxies) (args : List Arg) :
    s.constructVia proxies name args = assigned path <$>
      s.constructVia ((path.map ProxyStep.name).reverse ++ proxies) last
        (fixedArguments path ++ args) := by
  induction h generalizing proxies args with
  | here name => exact (id_map _).symm
  | @through name last spec proxy path hspec hproxy rest ih =>
    obtain ⟨hname, hnodup⟩ := List.nodup_cons.1 hnodup
    rw [List.map_cons, List.disjoint_cons_left] at hdisjoint
    rw [constructVia_of_not_mem hspec hproxy hdisjoint.1,
      ih hnodup (List.disjoint_cons_right.2 ⟨hname, hdisjoint.2⟩), fixedArguments_cons,
      List.map_cons, List.reverse_cons, List.append_assoc, List.append_assoc, ← comp_map]
    exact congrArg (· <$> _) (funext fun b => (assigned_cons ⟨name, spec, proxy⟩ path b).symm)

/-- What a constructor makes at the end of a route. -/
theorem construct_of_route {path : List ProxyStep} {name last : String}
    (h : s.table.Route name path last) (hnodup : (path.map ProxyStep.name).Nodup)
    (args : List Arg) :
    s.construct name args =
      s.constructVia (path.map ProxyStep.name).reverse last (fixedArguments path ++ args) >>=
        fun b => liftM (made (assigned path b)) := by
  rw [construct, constructVia_of_route h hnodup (List.disjoint_nil_right _), List.append_nil,
    bind_map_left]

/-- A constructor fails where its route stops, and makes nothing. -/
theorem outcome_of_throw {path : List ProxyStep} {name last : String}
    (h : s.table.Route name path last) (hnodup : (path.map ProxyStep.name).Nodup) {e : BuilderError}
    (hthrow : ∀ args, s.constructVia (path.map ProxyStep.name).reverse last args = throw e)
    (args : List Arg) (count : Nat) :
    (s.construct name args).outcome count = .error e ∧
    (s.construct name args).count count = count := by
  rw [construct_of_route h hnodup, hthrow]
  exact ⟨rfl, rfl⟩

/-- **Proxies resolve exactly.** From each name a route stops, and a route that stops says what the
constructor of the name gives: the failure of its end, with no new identifier, or what the
constructor of its target gives. -/
theorem construct_of_stops (h : s.table.Accepted) (name : String) :
    (∃ path last result, s.table.Route name path last ∧ s.table.Stops path last result) ∧
    ∀ path last result, s.table.Route name path last → s.table.Stops path last result →
      s.Resolves name path last result := by
  refine ⟨s.table.exists_stops name, fun path last result hroute hstops => ?_⟩
  cases hstops with
  | unknown hget | external hget =>
    have hstuck : s.table.Stuck last := .of_get? hget fun _ heq => by cases heq
    refine outcome_of_throw hroute (hroute.nodup_names hstuck) fun args => constructVia_of_error ?_
    rw [Table.builder, hget]
  | cycle hfirst hagain =>
    obtain ⟨step, hstep, rfl⟩ := List.mem_map.1 hagain
    obtain ⟨hspec, hproxy, -⟩ := hroute.exists_of_mem hstep
    exact outcome_of_throw hroute hfirst fun args =>
      constructVia_of_mem hspec hproxy (List.mem_reverse.2 hagain)
  | @target spec hget hctr =>
    have hstuck : s.table.Stuck last := .of_get? hget fun _ heq => by cases heq; exact hctr
    have hspec := Table.builder_eq_of_get? hget
    intro args count
    -- at the end of the route the constructor is that of the target, and makes what the target
    -- makes
    have htarget : s.construct last (fixedArguments path ++ args) =
        liftM (s.build last spec (fixedArguments path ++ args)) >>= fun b => liftM (made b) := by
      rw [construct, constructVia_of_target hspec hctr]
    have hconstruct := construct_of_route hroute (hroute.nodup_names hstuck) args
    rw [constructVia_of_target hspec hctr] at hconstruct
    have hset : ∀ step ∈ path, (Fields.names step.spec.set).Nodup := fun step hstep =>
      h.nodup_set (Fields.mem_of_get? (Table.get?_of_builder (hroute.exists_of_mem hstep).1))
    refine ⟨((s.build last spec (fixedArguments path ++ args)).run count).1, ?_, ?_, ?_,
      get?_assigned hset _⟩
    · rw [htarget, Run.outcome_bind, Run.outcome_lift]
      rfl
    · rw [hconstruct, Run.outcome_bind, Run.outcome_lift]
      rfl
    · rw [htarget, hconstruct, Run.count_bind, Run.count_bind, Run.outcome_lift, Run.count_lift]
      rfl

/-- Two proxies in front of a builder, and one that stands for itself. -/
def forwardingSession : Session where
  table := [("outer", .method { (default : MethodSpec) with
      set := [("a", .str "outer")], ctr := some ⟨"inner", none, some (.str "first")⟩ }),
    ("inner", .method { (default : MethodSpec) with
      set := [("a", .str "inner"), ("b", .str "inner")], ctr :=
        some ⟨"target", none, some (.str "second")⟩ }),
    ("target", .method { (default : MethodSpec) with
      args := some [.positional "x", .positional "y", .positional "z"] }),
    ("loop", .method { (default : MethodSpec) with ctr := some ⟨"loop", none, none⟩ })]
  shapes := []
  functions := []

theorem construct_of_stops_forwardingSession : forwardingSession.table.Accepted ∧
    (∃ path, path.map ProxyStep.name = ["loop"] ∧
      forwardingSession.Resolves "loop" path "loop" (.error (.proxyCycle "loop"))) ∧
    ∃ path spec, path.map ProxyStep.name = ["outer", "inner"] ∧
      fixedArguments path = [.json (.str "second"), .json (.str "first")] ∧
      forwardingSession.Resolves "outer" path "target" (.ok spec) := by
  have haccepted : forwardingSession.table.Accepted :=
    .inr ⟨.obj [("outer", .obj [("set", .obj [("a", .str "outer")]),
        ("ctr", .obj [("call", .str "inner"), ("arg", .str "first")])]),
      ("inner", .obj [("set", .obj [("a", .str "inner"), ("b", .str "inner")]),
        ("ctr", .obj [("call", .str "target"), ("arg", .str "second")])]),
      ("target", .obj [("arg", .arr [.str "x", .str "y", .str "z"])]),
      ("loop", .obj [("ctr", .obj [("call", .str "loop")])])], rfl⟩
  have hloop : forwardingSession.table.Route "loop" _ "loop" := .through rfl rfl (.here "loop")
  have houter : forwardingSession.table.Route "outer" _ "target" :=
    .through rfl rfl (.through rfl rfl (.here "target"))
  exact ⟨haccepted,
    ⟨_, rfl, (construct_of_stops haccepted "loop").2 _ _ _ hloop (.cycle (by decide) (by decide))⟩,
    _, _, rfl, rfl, (construct_of_stops haccepted "outer").2 _ _ _ houter (.target rfl rfl)⟩

end Session

end BuilderApi
