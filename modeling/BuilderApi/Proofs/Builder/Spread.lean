import Mathlib.Logic.Relation
import BuilderApi.Proofs.Builder.Footprint
import BuilderApi.Proofs.Builder.Proxies

/-!
# Arguments that are spread

A property that all arguments of a constructor or an accessor are put into holds one element for
each of their **leaves**: what is left when the arrays among the arguments are opened until there
are none (`BuilderApi.Arg.LeavesOf`). Builders are not opened. One array is opened at a time and in
any order; since none of it changes what flattening gives, the leaves are determined, and flattening
finds them (`BuilderApi.Arg.leavesOf_iff`).

So how arguments are nested does not matter (`BuilderApi.Session.spread_of_leaves`), and no array
comes back: a dispatch table wraps a leaf in an object or hands it on, and a builder is serialized
as an object. That is about the array that is put. An accessor makes its fixed assignments behind
it, a constructor those of the proxies that lead to it, and one of these may replace it
(`BuilderApi.Session.set_replaces_spread`).
-/

namespace BuilderApi

/-! ### Leaves -/

namespace Arg

variable {args args' more leaves leaves' : List Arg}

/-- Is it an array? -/
def isArr : Arg → Bool
  | .json value => value.isArr
  | .builder _ => false

/-- An array among arguments is replaced by its items. -/
inductive Opens : List Arg → List Arg → Prop where
  /-- In front of the array and behind it everything stays. -/
  | array (front : List Arg) (items : List Json) (back : List Arg) :
      Opens (front ++ .json (.arr items) :: back) (front ++ items.map .json ++ back)

/-- The leaves of arguments: what is left when all arrays are opened. -/
structure LeavesOf (args leaves : List Arg) : Prop where
  /-- They are reached by opening one array after another. -/
  opens : Relation.ReflTransGen Opens args leaves
  /-- None of them is an array. -/
  isArr : ∀ leaf ∈ leaves, leaf.isArr = false

theorem flatten_cons (arg : Arg) (args : List Arg) :
    flatten (arg :: args) = flatten [arg] ++ flatten args := by
  simp [flatten]

/-- Arguments are flattened one after the other. -/
theorem flatten_append (args more : List Arg) :
    flatten (args ++ more) = flatten args ++ flatten more :=
  List.flatMap_append

theorem flatten_items (items : List Json) :
    flatten (items.map .json) = (Json.itemLeaves items).map .json := by
  induction items with
  | nil => rw [Json.itemLeaves]; rfl
  | cons item rest ih =>
    rw [List.map_cons, flatten_cons, ih, Json.itemLeaves, List.map_append]
    simp [flatten]

/-- A list is flattened to what its items are flattened to. -/
theorem flatten_array (items : List Json) :
    flatten [.json (.arr items)] = flatten (items.map .json) := by
  rw [flatten_items]
  simp [flatten, Json.leaves]

/-- What is no array is a leaf. -/
theorem flatten_eq_self (h : ∀ leaf ∈ leaves, leaf.isArr = false) : flatten leaves = leaves := by
  induction leaves with
  | nil => rfl
  | cons leaf rest ih =>
    obtain ⟨hleaf, hrest⟩ := List.forall_mem_cons.1 h
    rw [flatten_cons, ih hrest]
    cases leaf with
    | builder b => rfl
    | json value =>
      cases value with
      | arr items => cases hleaf
      | _ => simp [flatten, Json.leaves]

/-- **Opening an array does not change what flattening gives.** -/
theorem Opens.flatten_eq (h : Opens args args') : flatten args = flatten args' := by
  obtain ⟨front, items, back⟩ := h
  rw [flatten_append, flatten_cons, flatten_append, flatten_append, flatten_array,
    List.append_assoc]

/-! #### Flattening finds the leaves -/

theorem Opens.congr (h : Opens args args') (front back : List Arg) :
    Opens (front ++ args ++ back) (front ++ args' ++ back) := by
  obtain ⟨before, items, after⟩ := h
  simpa using Opens.array (front ++ before) items (after ++ back)

theorem LeavesOf.nil : LeavesOf [] [] := ⟨.refl, nofun⟩

theorem LeavesOf.of_isArr {arg : Arg} (h : arg.isArr = false) : LeavesOf [arg] [arg] :=
  ⟨.refl, List.forall_mem_singleton.2 h⟩

/-- The leaves of an array are those of its items. -/
theorem LeavesOf.array {items : List Json} (h : LeavesOf (items.map .json) leaves) :
    LeavesOf [.json (.arr items)] leaves :=
  ⟨.head (by simpa using Opens.array [] items []) h.opens, h.isArr⟩

/-- Arguments are opened beside one another. -/
theorem LeavesOf.append (h : LeavesOf args leaves) (h' : LeavesOf more leaves') :
    LeavesOf (args ++ more) (leaves ++ leaves') := by
  have hfirst : Relation.ReflTransGen Opens (args ++ more) (leaves ++ more) :=
    h.opens.lift (· ++ more) fun _ _ hopens => by simpa using hopens.congr [] more
  have hsecond : Relation.ReflTransGen Opens (leaves ++ more) (leaves ++ leaves') :=
    h'.opens.lift (leaves ++ ·) fun _ _ hopens => by simpa using hopens.congr leaves []
  exact ⟨hfirst.trans hsecond, fun leaf hleaf =>
    (List.mem_append.1 hleaf).elim (h.isArr leaf) (h'.isArr leaf)⟩

mutual

/-- The leaves of a value are what opening it leads to. -/
theorem leavesOf_json : ∀ value : Json, LeavesOf [.json value] (value.leaves.map .json)
  | .arr items => by
    rw [Json.leaves]
    exact (leavesOf_items items).array
  | .null | .bool _ | .num _ | .str _ | .obj _ => by
    simp only [Json.leaves]
    exact .of_isArr rfl

theorem leavesOf_items :
    ∀ items : List Json, LeavesOf (items.map .json) ((Json.itemLeaves items).map .json)
  | [] => by
    rw [Json.itemLeaves]
    exact .nil
  | item :: rest => by
    rw [Json.itemLeaves, List.map_append, List.map_cons, ← List.singleton_append]
    exact (leavesOf_json item).append (leavesOf_items rest)

end

/-- Flattening leads to leaves. -/
theorem leavesOf_flatten (args : List Arg) : LeavesOf args (flatten args) := by
  induction args with
  | nil => exact .nil
  | cons arg rest ih =>
    have harg : LeavesOf [arg] (flatten [arg]) := by
      cases arg with
      | json value => simpa [flatten] using leavesOf_json value
      | builder b => exact .of_isArr rfl
    rw [flatten_cons, ← List.singleton_append]
    exact harg.append ih

/-- **Arguments have one list of leaves**, in whatever order their arrays are opened: the one that
flattening gives. -/
theorem leavesOf_iff : LeavesOf args leaves ↔ leaves = flatten args := by
  refine ⟨fun h => ?_, fun h => h ▸ leavesOf_flatten args⟩
  obtain ⟨hopens, hisArr⟩ := h
  rw [← flatten_eq_self hisArr]
  induction hopens using Relation.ReflTransGen.head_induction_on with
  | refl => rfl
  | head hfirst _ ih => exact ih.trans hfirst.flatten_eq.symm

end Arg

/-! ### Elements -/

namespace TypeTable

mutual

/-- A table makes no array of a value that is none. -/
theorem isArr_apply : ∀ {value : Json} (table : List (TypeCheck × TypeRule)), value.isArr = false →
    (apply table value).isArr = false
  | _, [], h => by rwa [apply]
  | value, (check, rule) :: rest, h => by
    rw [apply]
    split
    · exact isArr_applyRule rule h
    · exact isArr_apply rest h

theorem isArr_applyRule : ∀ {value : Json} (rule : TypeRule), value.isArr = false →
    (applyRule rule value).isArr = false
  | value, .key key set, _ => by
    rw [applyRule]
    rfl
  | value, .map cases, h => by
    rw [applyRule]
    · exact h
    · rintro items rfl
      cases h

end

end TypeTable

namespace Session

variable {s : Session}

/-- What leaves are stored as. -/
def elements (s : Session) (types : Option TypeTable) (leaves : List Arg) : List Json :=
  leaves.map fun leaf => s.value false (leaf.dispatch types)

/-- **No array comes back**: neither a dispatch table nor a serialized form gives one. -/
theorem isArr_elements {types : Option TypeTable} {leaves : List Arg}
    (h : ∀ leaf ∈ leaves, leaf.isArr = false) :
    ∀ item ∈ s.elements types leaves, item.isArr = false := by
  intro item hitem
  obtain ⟨leaf, hleaf, rfl⟩ := List.mem_map.1 hitem
  cases leaf with
  | builder b =>
    obtain ⟨members, hmembers⟩ :=
      b.exists_serialize false ((s.table.method? b.entry).bind MethodSpec.serial)
    change (b.serialize false _).isArr = false
    rw [hmembers]
    rfl
  | json value =>
    cases types with
    | none => exact h _ hleaf
    | some table => exact TypeTable.isArr_apply table (h _ hleaf)

end Session

/-- **An accessor that spreads**, the property it spreads into and the dispatch table of what it is
given. -/
inductive Member.Spreads : Member → String → Option TypeTable → Prop where
  /-- A schema property that holds an array. -/
  | property (name : String) (schema : Json) : Spreads ⟨name, .property schema true⟩ name none
  /-- An extension that takes all arguments. -/
  | extension {ext : Extension} {prop : String} (name : String) (h : ext.binding = .spread prop) :
    Spreads ⟨name, .extension ext⟩ prop ext.types

namespace Builder

/-- Assignments of other properties leave a property alone. -/
theorem get?_foldl_apply {sets : List (Fields Json)} {prop : String}
    (h : ∀ set ∈ sets, prop ∉ Fields.names set) (b : Builder) :
    (sets.foldl apply b).get? prop = b.get? prop := by
  induction sets generalizing b with
  | nil => rfl
  | cons set rest ih =>
    obtain ⟨hset, hrest⟩ := List.forall_mem_cons.1 h
    exact (ih hrest _).trans (get?_apply_of_not_mem hset)

end Builder

namespace Session

variable {s : Session} {b : Builder} {member : Member} {types : Option TypeTable}
  {prop name : String} {args leaves : List Arg} {chain : ProxyChain}

/-- A builder that leaves were spread into, before further assignments were made. -/
structure HoldsLeaves (s : Session) (types : Option TypeTable) (prop : String) (leaves : List Arg)
    (start : Builder) (later : List (Fields Json)) (out : Builder) : Prop where
  /-- The array that is put has one element for each leaf, in their order. -/
  state : out = later.foldl Builder.apply (start.put prop (.arr (s.elements types leaves)))
  /-- None of its elements is an array. -/
  isArr : ∀ item ∈ s.elements types leaves, item.isArr = false
  /-- It is found in the property, if this is not assigned later. -/
  found : (∀ set ∈ later, prop ∉ Fields.names set) →
    out.get? prop = some (.arr (s.elements types leaves))

/-- Leaves are held once they are put under the property, whatever is assigned afterwards. -/
theorem holdsLeaves (h : ∀ leaf ∈ leaves, leaf.isArr = false) (types : Option TypeTable)
    (prop : String) (start : Builder) (later : List (Fields Json)) :
    s.HoldsLeaves types prop leaves start later
      (later.foldl Builder.apply (start.put prop (.arr (s.elements types leaves)))) where
  state := rfl
  isArr := isArr_elements h
  found hlater := (Builder.get?_foldl_apply hlater _).trans (Fields.get?_put_self _ _ _)

/-- **A call of an accessor that spreads stores the leaves** of its arguments, if there are
arguments. -/
theorem gives_spread (h : s.Offers b member) (hspreads : member.Spreads prop types)
    (hargs : args ≠ []) (hleaves : Arg.LeavesOf args leaves) :
    s.Gives b member args
      ([member.set].foldl Builder.apply (b.put prop (.arr (s.elements types leaves)))) := by
  rw [Arg.leavesOf_iff.1 hleaves]
  have hnonempty : args.isEmpty = false := by simpa using hargs
  cases hspreads with
  | property => exact gives_of_not_reads h hnonempty
  | @extension ext _ name hbinding =>
    have hreads : (⟨name, .extension ext⟩ : Member).reads args = false := by
      simp only [Member.reads, Extension.reads, hbinding, hnonempty]
    have hgives := gives_of_not_reads h hreads
    simp only [assignments, written, Member.target?, Member.set, hbinding, ExtBinding.prop?]
      at hgives
    exact hgives

/-- In an accepted table a binding that spreads is the only one. -/
theorem args_eq_of_spread (haccepted : s.table.Accepted) (hchain : s.table.chain name = .ok chain)
    (hspread : .spread prop ∈ chain.spec.args.getD []) : chain.spec.args = some [.spread prop] := by
  have hentry := Fields.mem_of_get? (Table.get?_of_builder (Table.builder_target hchain).1)
  rcases haccepted.bindings_eq_singleton_or hentry with ⟨binding, hbinding⟩ | hnone
  · rw [hbinding, List.mem_singleton] at hspread
    cases hargs : chain.spec.args with
    | none => simp [hargs] at hbinding
    | some bindings => simpa [hargs, hspread] using hbinding
  · exact absurd (hnone _ hspread) (by simp [ArgBinding.isTerminal])

/-- **A constructor that spreads stores the leaves** of its arguments, behind those of the fixed
arguments of proxies. -/
theorem outcome_construct_spread (hchain : s.table.chain name = .ok chain)
    (hargs : chain.spec.args = some [.spread prop])
    (hleaves : Arg.LeavesOf (chain.arguments args) leaves) (count : Nat) :
    (s.construct name args).outcome count = .ok
      ((chain.proxies.reverse.map fun proxy => proxy.1.set).foldl Builder.apply
        (((Builder.empty chain.target).apply chain.spec.set).put prop
          (.arr (s.elements (chain.spec.typeTable 0) leaves)))) := by
  have hbuild : s.build chain.target chain.spec (chain.arguments args) =
      s.bind chain.spec (chain.arguments args) 0 [.spread prop]
        ((Builder.empty chain.target).apply chain.spec.set) := by
    simp only [build, hargs]
  rw [outcome_construct, hchain, Arg.leavesOf_iff.1 hleaves, List.foldl_map, Except.map, hbuild]
  rfl

/-- **Spreading depends on the leaves alone.** If two lists of arguments have the same leaves, a
constructor that spreads gives the same builder for both, and so does an accessor that spreads, if
there are arguments. The array that is put has one element for each leaf, in their order, and none
of them is an array. It is what the property holds in the end, unless a fixed assignment is made to
it later, by the extension itself or by a proxy in front of the constructor. -/
theorem spread_of_leaves (haccepted : s.table.Accepted) :
    (∀ name chain prop, s.table.chain name = .ok chain → .spread prop ∈ chain.spec.args.getD [] →
      ∀ args args' leaves, Arg.LeavesOf args leaves → Arg.LeavesOf args' leaves →
        ∃ fixed out, Arg.LeavesOf (chain.arguments []) fixed ∧
          s.HoldsLeaves (chain.spec.typeTable 0) prop (fixed ++ leaves)
            ((Builder.empty chain.target).apply chain.spec.set)
            (chain.proxies.reverse.map fun proxy => proxy.1.set) out ∧
          ∀ count count', (s.construct name args).outcome count = .ok out ∧
            (s.construct name args').outcome count' = .ok out) ∧
    ∀ b member prop types, s.Offers b member → member.Spreads prop types →
      ∀ args args' leaves, args ≠ [] → args' ≠ [] → Arg.LeavesOf args leaves →
        Arg.LeavesOf args' leaves →
        ∃ out, s.HoldsLeaves types prop leaves b [member.set] out ∧
          s.Gives b member args out ∧ s.Gives b member args' out := by
  refine ⟨?_, ?_⟩
  · intro name chain prop hchain hspread args args' leaves hleaves hleaves'
    have hargs := args_eq_of_spread haccepted hchain hspread
    have hfixed := Arg.leavesOf_flatten (chain.arguments [])
    -- the fixed arguments stand in front, and are opened by themselves
    have hall : ∀ {given : List Arg}, Arg.LeavesOf given leaves →
        Arg.LeavesOf (chain.arguments given) (Arg.flatten (chain.arguments []) ++ leaves) := by
      intro given hgiven
      simpa [ProxyChain.arguments] using hfixed.append hgiven
    exact ⟨_, _, hfixed, holdsLeaves (hall hleaves).isArr _ _ _ _, fun count count' =>
      ⟨outcome_construct_spread hchain hargs (hall hleaves) count,
        outcome_construct_spread hchain hargs (hall hleaves') count'⟩⟩
  · intro b member prop types hoffers hspreads args args' leaves hne hne' hleaves hleaves'
    exact ⟨_, holdsLeaves hleaves.isArr _ _ _ _, gives_spread hoffers hspreads hne hleaves,
      gives_spread hoffers hspreads hne' hleaves'⟩

/-- An extension that wraps the strings among its leaves. -/
def rowsExtension : Extension :=
  ⟨.spread "rows", none, some [(.string, .key "field" [])], .replace, [], none⟩

/-- An entry whose constructor and whose extension take all arguments. -/
def listSpec : MethodSpec :=
  { (default : MethodSpec) with args := some [.spread "items"], ext :=
    [("rows", some rowsExtension)] }

/-- A proxy that puts an array in front. -/
def listsProxy : Proxy := ⟨"list", none, some (.arr [.str "a"])⟩

def listsSpec : MethodSpec := { (default : MethodSpec) with ctr := some listsProxy }

def listSession : Session := ⟨[("list", .method listSpec), ("lists", .method listsSpec)], [], []⟩

/-- The arguments once as they are, and once in arrays of which one is empty. -/
theorem spread_of_leaves_listSession :
    let flat : List Arg := [.json (.str "b"), .json .null]
    let nested : List Arg := [.json (.arr []), .json (.arr [.arr [.str "b"], .null])]
    listSession.table.Accepted ∧ Arg.LeavesOf flat flat ∧ Arg.LeavesOf nested flat ∧
      (∃ out, (∀ count count', (listSession.construct "lists" flat).outcome count = .ok out ∧
          (listSession.construct "lists" nested).outcome count' = .ok out) ∧
        out.get? "items" = some (.arr [.str "a", .str "b", .null])) ∧
      ∃ out, listSession.Gives (.empty "list") ⟨"rows", .extension rowsExtension⟩ flat out ∧
        listSession.Gives (.empty "list") ⟨"rows", .extension rowsExtension⟩ nested out ∧
        out.get? "rows" = some (.arr [.obj [("field", .str "b")], .null]) := by
  intro flat nested
  have haccepted : listSession.table.Accepted :=
    .inr ⟨.obj [("list", .obj [("arg", .arr [.str "...items"]), ("ext", .obj [("rows", .obj [
        ("arg", .arr [.str "...rows"]),
        ("type", .obj [("string", .obj [("key", .str "field")])])])])]),
      ("lists", .obj [("ctr", .obj [("call", .str "list"), ("arg", .arr [.str "a"])])])], rfl⟩
  have hflat : Arg.LeavesOf flat flat := Arg.leavesOf_iff.2 rfl
  have hnested : Arg.LeavesOf nested flat := Arg.leavesOf_iff.2 rfl
  obtain ⟨hconstruct, hcall⟩ := spread_of_leaves haccepted
  refine ⟨haccepted, hflat, hnested, ?_, ?_⟩
  · have htarget : listSession.table.follow ["lists"] "list" = .ok ⟨[], "list", listSpec⟩ :=
      Table.follow_of_target rfl rfl
    have hchain :
        listSession.table.chain "lists" = .ok ⟨[(listsSpec, listsProxy)], "list", listSpec⟩ := by
      rw [Table.chain,
        @Table.follow_of_not_mem _ [] "lists" listsSpec listsProxy rfl rfl List.not_mem_nil]
      exact congrArg (Except.map fun chain => chain.through listsSpec listsProxy) htarget
    obtain ⟨fixed, out, hfixed, hout, hsame⟩ :=
      hconstruct "lists" _ "items" hchain (.head _) flat nested flat hflat hnested
    refine ⟨out, hsame, (hout.found (List.forall_mem_singleton.2 List.not_mem_nil)).trans ?_⟩
    rw [Arg.leavesOf_iff.1 hfixed]
    rfl
  · obtain ⟨out, hout, hgives, hgives'⟩ :=
      hcall (.empty "list") ⟨"rows", .extension rowsExtension⟩ "rows" _ ⟨_, rfl, .head _,
        rfl⟩ (.extension "rows" rfl)
        flat nested flat (by simp [flat]) (by simp [nested]) hflat hnested
    exact ⟨out, hgives, hgives',
      (hout.found (by simp [Member.set, rowsExtension, Fields.names])).trans rfl⟩

/-- An extension that spreads into a property, and assigns it. -/
def fixedValues : Extension :=
  ⟨.spread "values", none, none, .replace, [("values", .arr [.arr [.num (.int 1)]])], none⟩

/-- **A fixed assignment replaces the array that is spread**: the table is accepted, and two leaves
leave one element, which is an array. -/
theorem set_replaces_spread :
    let s : Session :=
  ⟨[("m", .method { (default : MethodSpec) with ext := [("vals", some fixedValues)] })], [], []⟩
    let member : Member := ⟨"vals", .extension fixedValues⟩
    let args : List Arg :=
      [.json (.obj [("v", .num (.int 1))]), .json (.obj [("v", .num (.int 2))])]
    s.table.Accepted ∧ s.Offers (.empty "m") member ∧ member.Spreads "values" none ∧
      Arg.LeavesOf args args ∧ ∃ out, s.Gives (.empty "m") member args out ∧
        out.get? "values" = some (.arr [.arr [.num (.int 1)]]) ∧
        ¬∃ items, out.get? "values" = some (.arr items) ∧ items.length = args.length ∧
          ∀ item ∈ items, item.isArr = false := by
  intro s member args
  have haccepted : s.table.Accepted :=
    .inr ⟨.obj [("m", .obj [("ext", .obj [("vals", .obj [("arg", .arr [.str "...values"]),
      ("set", .obj [("values", .arr [.arr [.num (.int 1)]])])])])])], rfl⟩
  have hoffers : s.Offers (.empty "m") member := ⟨_, rfl, .head _, rfl⟩
  have hspreads : member.Spreads "values" none := .extension "vals" rfl
  have hargs : Arg.LeavesOf args args := Arg.leavesOf_iff.2 rfl
  refine ⟨haccepted, hoffers, hspreads, hargs, _,
    gives_spread hoffers hspreads (by simp [args]) hargs, rfl, ?_⟩
  rintro ⟨items, hitems, hlength, -⟩
  have hvalue : some (Json.arr [.arr [.num (.int 1)]]) = some (.arr items) := hitems
  cases hvalue
  simp [args] at hlength

end Session

end BuilderApi
