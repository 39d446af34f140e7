import BuilderApi.Proofs.Table.Accepted
import BuilderApi.Proofs.Table.Plan

/-!
# The plan is the union by priority

Four kinds of members compete for names: schema properties, extensions, delegations and invocations.
The plan is built by placing them one after another, each taking its name from whoever had it. Since
a kind names nobody twice, placing a whole kind takes away the names that it has and puts it at the
end (`BuilderApi.Member.placeAll_of_nodup`). So of each kind there remain, in declared order, the
members that no later kind has a name for (`BuilderApi.Member.isPriorityUnion`).

That a kind names nobody twice comes from reading: the declarations of an accepted table are maps
(`BuilderApi.Member.Distinct.of_accepted`).

Null has two meanings here. A null extension still is a name that the entry lists among its
extensions, and keeps the schema property of this name away; a null delegation or invocation is as
good as none.
-/

namespace BuilderApi

namespace Member

variable {α : Type} {spec : MethodSpec} {shape : Properties}

/-! ### Placing a kind -/

theorem placeAll_append (plan kinds more : Fields MemberKind) :
    placeAll plan (kinds ++ more) = placeAll (placeAll plan kinds) more :=
  List.foldl_append

/-- **A kind takes the names that it has**, and goes to the end. -/
theorem placeAll_of_nodup {kinds : Fields MemberKind} (h : (Fields.names kinds).Nodup)
    (plan : Fields MemberKind) :
    placeAll plan kinds =
      plan.filter (fun field => !(Fields.names kinds).contains field.1) ++ kinds := by
  induction kinds generalizing plan with
  | nil => simp [placeAll, Fields.names]
  | cons field rest ih =>
    obtain ⟨name, kind⟩ := field
    obtain ⟨hname, hrest⟩ : name ∉ Fields.names rest ∧ (Fields.names rest).Nodup :=
      List.nodup_cons.1 h
    have hstep : placeAll plan ((name, kind) :: rest) = placeAll (place plan name kind) rest := rfl
    -- the rest does not have the name, so what was placed stays
    have hkept : ([(name, kind)] : Fields MemberKind).filter (fun field =>
        !(Fields.names rest).contains field.1) =
        [(name, kind)] :=
      List.filter_eq_self.2 fun field hfield => by simp [List.mem_singleton.1 hfield, hname]
    rw [hstep, ih hrest, place, List.filter_append, hkept, Fields.erase, List.filter_filter,
      List.append_assoc, List.singleton_append]
    congr 1
    refine List.filter_congr fun field _ => ?_
    change (_ && decide (field.1 ≠ name)) = !(name :: Fields.names rest).contains field.1
    rw [List.contains_cons, Bool.not_or, Bool.and_comm, decide_not]
    rfl

/-! ### Declarations that are not null -/

/-- Is there a declaration under this name that is not null? -/
def declares (fields : Fields (Option α)) (name : String) : Bool :=
  fields.any fun field => field.1 == name && field.2.isSome

theorem contains_names_declared (wrap : α → MemberKind) (fields : Fields (Option α))
    (name : String) :
    (Fields.names (declared wrap fields)).contains name = declares fields name := by
  induction fields with
  | nil => rfl
  | cons field rest ih =>
    obtain ⟨other, value⟩ := field
    cases value with
    | none => simpa [declared, declares] using ih
    | some v =>
      change (other :: Fields.names (declared wrap rest)).contains name =
        ((other == name && true) || declares rest name)
      rw [List.contains_cons, ih, Bool.and_true, Bool.beq_comm]

theorem names_declared_sublist (wrap : α → MemberKind) (fields : Fields (Option α)) :
    (Fields.names (declared wrap fields)).Sublist (Fields.names fields) := by
  induction fields with
  | nil => exact List.Sublist.refl _
  | cons field rest ih =>
    obtain ⟨name, value⟩ := field
    cases value with
    | none => exact ih.cons name
    | some v => exact ih.cons_cons name

/-- A name that is not listed is not declared. -/
theorem declares_eq_false {fields : Fields (Option α)} {name : String}
    (h : fields.has name = false) :
    declares fields name = false := by
  have hname : name ∉ Fields.names fields :=
    Fields.get?_eq_none_iff.1 (by simpa [Fields.has] using h)
  refine List.any_eq_false.2 fun field hfield hdeclared => hname ?_
  rw [Bool.and_eq_true, beq_iff_eq] at hdeclared
  exact hdeclared.1 ▸ List.mem_map_of_mem hfield

/-- It does not matter whether names are left out before or after. -/
theorem filter_declared (wrap : α → MemberKind) (keep : String → Bool)
    (fields : Fields (Option α)) :
    (declared wrap fields).filter (fun field => keep field.1) =
      declared wrap (fields.filter fun field => keep field.1) := by
  induction fields with
  | nil => rfl
  | cons field rest ih =>
    obtain ⟨name, value⟩ := field
    cases hkeep : keep name <;> cases value <;> simp_all [declared]

theorem declared_filter_isSome (wrap : α → MemberKind) (fields : Fields (Option α)) :
    declared wrap (fields.filter fun field => field.2.isSome) = declared wrap fields := by
  induction fields with
  | nil => rfl
  | cons field rest ih =>
    obtain ⟨name, value⟩ := field
    cases value <;> simp_all [declared]

/-! ### The union -/

/-- The declarations of an entry and the properties of its shape are maps: none of the four names
anything twice. -/
structure Distinct (spec : MethodSpec) (shape : Properties) : Prop where
  /-- The properties. -/
  shape : (Fields.names shape).Nodup
  /-- The extensions. -/
  ext : (Fields.names spec.ext).Nodup
  /-- The delegations. -/
  pass : (Fields.names spec.pass).Nodup
  /-- The invocations. -/
  call : (Fields.names spec.call).Nodup

/-- The declarations of an accepted table are maps. -/
theorem Distinct.of_accepted {table : Table} (h : table.Accepted) {name : String}
    (hentry : (name, .method spec) ∈ table) (hshape : (Fields.names shape).Nodup) :
    Distinct spec shape := by
  obtain ⟨hext, hpass, hcall⟩ := h.nodup_members hentry
  exact ⟨hshape, hext, hpass, hcall⟩

/-- Does a delegation or an invocation that is not null have this name? -/
def forwards (spec : MethodSpec) (name : String) : Bool :=
  declares spec.pass name || declares spec.call name

/-- **The union by priority**: the properties that are not listed among the extensions and not
forwarded, the extensions that are not forwarded, the delegations without an invocation of the same
name, and the invocations. Nulls are left out. -/
def union (spec : MethodSpec) (shape : Properties) : List Member :=
  let properties := shape.filter fun field => !spec.ext.has field.1 && !forwards spec field.1
  let fields :=
    (properties.map fun (name, schema) => (name, .property schema (isArrayType schema))) ++
    declared .extension (spec.ext.filter fun field => !forwards spec field.1) ++
    declared .delegation (spec.pass.filter fun field => !declares spec.call field.1) ++
    declared .invocation spec.call
  fields.map fun (name, kind) => ⟨name, kind⟩

/-- What the plan of a builder is, and what is found in it. -/
structure IsPriorityUnion (spec : MethodSpec) (shape : Properties) : Prop where
  /-- No two members share a name. -/
  distinct : (names spec shape).Nodup
  /-- The members are those of the union, in its order. -/
  plan_eq : plan spec shape = union spec shape
  /-- Null delegations and invocations neither add nor suppress anything. -/
  nulls : plan spec shape = plan { spec with
    pass := spec.pass.filter fun field => field.2.isSome
    call := spec.call.filter fun field => field.2.isSome } shape
  /-- In documentation order they are the same members. -/
  sorted_perm : (sorted spec shape).Perm (plan spec shape)
  /-- And their names strictly increase. -/
  sorted_increasing : ((sorted spec shape).map Member.name).Pairwise (· < ·)
  /-- A member is found under its name, and nothing else is. -/
  find_iff : ∀ name member, find spec shape name = some member ↔
    member ∈ plan spec shape ∧ member.name = name

theorem nodup_names_properties (h : (Fields.names shape).Nodup) :
    (Fields.names (properties spec shape)).Nodup := by
  have hnames : Fields.names (properties spec shape) =
      Fields.names (shape.filter fun field => !spec.ext.has field.1) := by
    simp [properties, Fields.names, List.map_map, Function.comp_def]
  rw [hnames]
  exact h.sublist (List.filter_sublist.map Prod.fst)

/-- **The plan is the union by priority.** -/
theorem plan_eq_union (hproxy : spec.isProxy = false) (h : Distinct spec shape) :
    plan spec shape = union spec shape := by
  -- each kind is filtered once for every later one
  have hproperties :
      (((properties spec shape).filter fun field => !declares spec.ext field.1).filter
      fun field => !declares spec.pass field.1).filter (fun field => !declares spec.call field.1) =
      (shape.filter fun field => !spec.ext.has field.1 && !forwards spec field.1).map
        fun (name, schema) => (name, .property schema (isArrayType schema)) := by
    simp only [properties, List.filter_map, List.filter_filter, Function.comp_def]
    congr 1
    refine List.filter_congr fun field _ => ?_
    cases hhas : spec.ext.has field.1 with
    | true => simp
    | false => simp [declares_eq_false hhas, forwards, Bool.and_comm]
  have hextensions :
      ((declared .extension spec.ext).filter fun field => !declares spec.pass field.1).filter
      (fun field => !declares spec.call field.1) =
      declared .extension (spec.ext.filter fun field => !forwards spec field.1) := by
    rw [filter_declared _ fun name => !declares spec.pass name, filter_declared _ fun name =>
      !declares spec.call name, List.filter_filter]
    simp only [forwards, Bool.not_or, Bool.and_comm]
  rw [plan, if_neg (by simp [hproxy]), placeAll_append, placeAll_append, placeAll_append,
    placeAll_of_nodup (nodup_names_properties h.shape),
    placeAll_of_nodup (h.ext.sublist (names_declared_sublist _ _)),
    placeAll_of_nodup (h.pass.sublist (names_declared_sublist _ _)),
    placeAll_of_nodup (h.call.sublist (names_declared_sublist _ _))]
  simp only [contains_names_declared, List.filter_nil, List.nil_append, List.filter_append]
  rw [hproperties, hextensions, filter_declared _ fun name => !declares spec.call name]
  rfl

/-- **Each name goes to the latest kind that has it**, and the plan keeps the order of the kinds and
of their declarations. -/
theorem isPriorityUnion (hproxy : spec.isProxy = false) (h : Distinct spec shape) :
    IsPriorityUnion spec shape where
  distinct := nodup_plan spec shape
  plan_eq := plan_eq_union hproxy h
  nulls := by
    unfold plan
    simp only [declared_filter_isSome]
    rfl
  sorted_perm := sorted_perm
  sorted_increasing := pairwise_sorted
  find_iff name member := by
    constructor
    · intro hfind
      exact ⟨List.mem_of_find?_eq_some hfind, by simpa using List.find?_some hfind⟩
    · rintro ⟨hmember, rfl⟩
      exact find_of_mem hmember

/-- An entry in which all four kinds compete, with nulls among them. -/
def rivalSpec : MethodSpec :=
  let extension : Extension := ⟨.merge .object "encoding", none, none, .replace, [], none⟩
  { (default : MethodSpec) with
    ext := [("schema", none), ("mark", some extension), ("encode", some extension)]
    pass := [("mark", some ⟨"mark", none, none, none, none, none⟩), ("gone", none), ("width", none)]
    call := [("encode", none), ("render", some ⟨"render", none, none, none⟩)] }

/-- A shape with some of its names. -/
def rivalShape : Properties :=
  [("width", .null), ("render", .null), ("schema", .null), ("mark", .null)]

theorem isPriorityUnion_rivalSpec : IsPriorityUnion rivalSpec rivalShape ∧
    names rivalSpec rivalShape = ["width", "encode", "mark", "render"] :=
  ⟨isPriorityUnion rfl ⟨by decide, by decide, by decide, by decide⟩, rfl⟩

end Member

end BuilderApi
