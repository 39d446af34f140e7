import BuilderApi.Builder.Run

/-!
# Constructing builders

A constructor of an entry binds its arguments one by one. A proxy stands for the constructor of
another entry, which may be a proxy again: each proxy puts its fixed argument in front of the others
on the way to the target, and makes its fixed assignments to the builder that comes back, so the
outermost proxy has the last word. A constructor fails if the way leaves the methods of the table or
comes back to a proxy.
-/

namespace BuilderApi

/-- The method of a table that has this name. -/
def Table.builder (table : Table) (name : String) : Except BuilderError MethodSpec :=
  match Fields.get? table name with
  | some (.method spec) => .ok spec
  | some (.external _) => .error (.externalEntry name)
  | none => .error (.unknownEntry name)

/-! ### Binding arguments -/

namespace Session

/-- Binds the arguments of a constructor from this position on. A binding that takes all arguments
is the last one. -/
def bind (s : Session) (spec : MethodSpec) (args : List Arg) (position : Nat) :
    List ArgBinding → Builder → Making Builder
  | [], b => return b
  | .merge prop :: _, b =>
    let current := (b.get? prop).toList.map Arg.json
    let given := args.map (Arg.dispatch (spec.typeTable position))
    return b.put prop (s.merge .replace (current ++ given))
  | .spread prop :: _, b =>
    let items := (Arg.flatten args).map fun arg =>
      s.value false (arg.dispatch (spec.typeTable position))
    return b.put prop (.arr items)
  | .withDefault prop value :: rest, b =>
    let given := args[position]?.map (s.value false)
    s.bind spec args (position + 1) rest (b.put prop (given.getD value))
  | .hidden field autogen :: rest, b => do
    let b ← match args[position]?, autogen with
      | some arg, _ => pure (b.putHidden field (s.value false arg))
      | none, some base => b.putHidden field <$> .str <$> newIdentifier base
      | none, none => pure b
    s.bind spec args (position + 1) rest b
  | .positional prop :: rest, b =>
    let b := match args[position]? with
      | some arg => b.put prop (s.value false (arg.dispatch (spec.typeTable position)))
      | none => b
    s.bind spec args (position + 1) rest b

/-- Constructs a builder of an entry that is no proxy. -/
def build (s : Session) (name : String) (spec : MethodSpec) (args : List Arg) : Making Builder :=
  let start := (Builder.empty name).apply spec.set
  match spec.args with
  | some bindings => s.bind spec args 0 bindings start
  | none => return args.foldl (fun b arg => b.assign (arg.dispatch (spec.typeTable 0))) start

end Session

/-! ### Proxies -/

namespace Table

/-- The names of a table that are none of these. -/
def unseen (table : Table) (proxies : List String) : List String :=
  (Fields.names table).filter (· ∉ proxies)

variable {table : Table} {proxies : List String} {name : String} {spec : MethodSpec}

theorem get?_of_builder (h : table.builder name = .ok spec) :
    Fields.get? table name = some (.method spec) := by
  unfold builder at h
  split at h
  · next hget =>
    cases h
    exact hget
  · cases h
  · cases h

/-- Each proxy that is followed leaves fewer names. -/
theorem length_unseen_lt (hspec : table.builder name = .ok spec) (hseen : name ∉ proxies) :
    (table.unseen (name :: proxies)).length < (table.unseen proxies).length := by
  have hrest : table.unseen (name :: proxies) = (table.unseen proxies).filter (· ≠ name) := by
    simp [unseen, List.filter_filter]
  have hname : name ∈ table.unseen proxies :=
    List.mem_filter.2 ⟨Fields.mem_names_of_get? (get?_of_builder hspec), decide_eq_true hseen⟩
  rw [hrest]
  exact List.length_filter_lt_length_iff_exists.2 ⟨name, hname, by simp⟩

end Table

namespace Session

/-- Constructs a builder by the name of an entry, where these proxies were already followed. -/
def constructVia (s : Session) (proxies : List String) (name : String) (args : List Arg) :
    Run Builder :=
  match _hspec : s.table.builder name with
  | .error e => throw e
  | .ok spec =>
    match spec.ctr with
    | none => liftM (s.build name spec args)
    | some proxy =>
      if _hseen : name ∈ proxies then throw (.proxyCycle name)
      else do
        let b ← s.constructVia (name :: proxies) proxy.call (proxy.arg.toList.map Arg.json ++ args)
        return b.apply spec.set
termination_by (s.table.unseen proxies).length
decreasing_by exact Table.length_unseen_lt _hspec _hseen

/-- Constructs a builder by the name of an entry. -/
def construct (s : Session) (name : String) (args : List Arg) : Run Builder := do
  made (← s.constructVia [] name args)

end Session

end BuilderApi
