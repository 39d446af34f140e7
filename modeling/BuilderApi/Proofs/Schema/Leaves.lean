import BuilderApi.Proofs.Json.Keyed
import BuilderApi.Proofs.Schema.Walk
import Mathlib.Data.List.Permutation
import Mathlib.Data.List.Sort

/-!
# The leaves of a schema node

A search collects its findings from the bottom up, and combines them again at every combinator. What
comes out does not depend on that: it is decided by the **leaves** of the node, the recognized nodes
at the ends of its references and combinators, from left to right and each as often as it is reached
(`BuilderApi.Schema.Leaves`). The relation has no guard against cycles, and needs none, since a node
has leaves exactly when its search succeeds.

Two induction steps carry everything. Findings that agree with their leaves are combined into a
finding that agrees with the leaves of the combinator; this is
`BuilderApi.Schema.Explores.exists_leaves`, for any way of agreeing. And references alone lead to
one node, where it is decided what kind of result it is (`BuilderApi.Schema.Leads`).

For property maps to agree is to be the fields that all properties of the leaves describe, so a name
has the place of the first leaf that declares it and the node of the last. For lists of strings to
agree is to be a permutation, and a combinator sorts it.
-/

namespace BuilderApi

/-- The properties that an object shape declares. -/
def Json.declaredProperties (node : Json) : Properties :=
  ((node.get? "properties").bind Json.obj?).getD []

namespace Schema

variable {α : Type} (schema : Schema) (x : Extractor α)

/-! ### Leaves, and where references lead -/

/-- The leaves of a node, from left to right. -/
inductive Leaves : Json → List Json → Prop
  /-- A reference without a target has none. -/
  | missing {node : Json} {reference : String} (hnode : node.reference? = some reference)
      (htarget : schema.lookup reference = none) : Leaves node []
  /-- A reference has those of its target. -/
  | follow {node target : Json} {reference : String} {leaves : List Json}
      (hnode : node.reference? = some reference) (htarget : schema.lookup reference = some target)
      (hleaves : Leaves target leaves) : Leaves node leaves
  /-- A recognized node is its own leaf. -/
  | leaf {node : Json} (hnode : node.reference? = none) (hx : x.recognizes node = true) :
      Leaves node [node]
  /-- A combinator has those of its branches. -/
  | gather {node : Json} {branches : List Json} (leaves : Json → List Json)
      (hnode : node.reference? = none) (hx : x.recognizes node = false)
      (hbranches : node.branches? combinators = some branches)
      (hleaves : ∀ child ∈ branches, Leaves child (leaves child)) :
      Leaves node (branches.flatMap leaves)
  /-- Any other node has none. -/
  | nothing {node : Json} (hnode : node.reference? = none) (hx : x.recognizes node = false)
      (hbranches : node.branches? combinators = none) : Leaves node []

/-- Where references alone lead from a node: to a node that is no reference, or to a target that is
not there. -/
inductive Leads : Json → Option Json → Prop
  /-- A node that is no reference is the end. -/
  | here {node : Json} (hnode : node.reference? = none) : Leads node (some node)
  /-- A reference without a target is one too. -/
  | missing {node : Json} {reference : String} (hnode : node.reference? = some reference)
      (htarget : schema.lookup reference = none) : Leads node none
  /-- Any other reference is followed. -/
  | follow {node target : Json} {reference : String} {last : Option Json}
      (hnode : node.reference? = some reference) (htarget : schema.lookup reference = some target)
      (hlast : Leads target last) : Leads node last

/-- References alone lead from the node to a combinator that is not recognized. -/
def Splits (node : Json) : Prop :=
  ∃ last branches, schema.Leads node (some last) ∧ x.recognizes last = false ∧
    last.branches? combinators = some branches

variable {schema x}

/-! ### There is one leaf sequence -/

/-- Behind a reference there are the leaves of its target, or none. -/
theorem Leaves.of_reference {node : Json} {reference : String} {leaves : List Json}
    (h : schema.Leaves x node leaves) (hnode : node.reference? = some reference) :
    (schema.lookup reference = none ∧ leaves = []) ∨
      ∃ target, schema.lookup reference = some target ∧ schema.Leaves x target leaves := by
  cases h with
  | missing h htarget =>
    obtain rfl := Option.some.inj (h.symm.trans hnode)
    exact Or.inl ⟨htarget, rfl⟩
  | follow h htarget hleaves =>
    obtain rfl := Option.some.inj (h.symm.trans hnode)
    exact Or.inr ⟨_, htarget, hleaves⟩
  | leaf h | gather _ h | nothing h => simp [h] at hnode

/-- A node without reference is a leaf, or has the leaves of its branches. -/
theorem Leaves.of_none {node : Json} {leaves : List Json} (h : schema.Leaves x node leaves)
    (hnode : node.reference? = none) :
    (x.recognizes node = true ∧ leaves = [node]) ∨
      (x.recognizes node = false ∧ ∃ branches found, node.branches? combinators = some branches ∧
        (∀ child ∈ branches, schema.Leaves x child (found child)) ∧
        leaves = branches.flatMap found) ∨
      (x.recognizes node = false ∧ node.branches? combinators = none ∧ leaves = []) := by
  cases h with
  | missing h | follow h => simp [h] at hnode
  | leaf _ hx => exact Or.inl ⟨hx, rfl⟩
  | gather found _ hx hbranches hleaves =>
    exact Or.inr (Or.inl ⟨hx, _, found, hbranches, hleaves, rfl⟩)
  | nothing _ hx hbranches => exact Or.inr (Or.inr ⟨hx, hbranches, rfl⟩)

/-- **A node has at most one leaf sequence.** -/
theorem Leaves.unique {node : Json} {leaves other : List Json} (h : schema.Leaves x node leaves)
    (hother : schema.Leaves x node other) : leaves = other := by
  induction h generalizing other with
  | missing hnode htarget =>
    rcases hother.of_reference hnode with ⟨-, rfl⟩ | ⟨target, ht, -⟩
    · rfl
    · simp [htarget] at ht
  | follow hnode htarget _ ih =>
    rcases hother.of_reference hnode with ⟨ht, -⟩ | ⟨target, ht, hleaves⟩
    · simp [htarget] at ht
    · obtain rfl := Option.some.inj (ht.symm.trans htarget)
      exact ih hleaves
  | leaf hnode hx =>
    rcases hother.of_none hnode with ⟨-, rfl⟩ | ⟨hx', -⟩ | ⟨hx', -⟩
    · rfl
    · simp [hx] at hx'
    · simp [hx] at hx'
  | gather found hnode hx hbranches _ ih =>
    rcases hother.of_none hnode with ⟨hx', -⟩ | ⟨-, branches, found', hb, hleaves, rfl⟩ | ⟨-, hb, -⟩
    · simp [hx] at hx'
    · obtain rfl := Option.some.inj (hb.symm.trans hbranches)
      exact List.flatMap_congr fun child hchild => ih child hchild (hleaves child hchild)
    · simp [hbranches] at hb
  | nothing hnode hx hbranches =>
    rcases hother.of_none hnode with ⟨hx', -⟩ | ⟨-, branches, _, hb, -⟩ | ⟨-, -, rfl⟩
    · simp [hx] at hx'
    · simp [hbranches] at hb
    · rfl

/-- References lead to one end. -/
theorem Leads.unique {node : Json} {last other : Option Json} (h : schema.Leads node last)
    (hother : schema.Leads node other) : last = other := by
  induction h with
  | here hnode =>
    cases hother with
    | here => rfl
    | missing h | follow h => simp [h] at hnode
  | missing hnode htarget =>
    cases hother with
    | here h => simp [h] at hnode
    | missing => rfl
    | follow h ht =>
      obtain rfl := Option.some.inj (h.symm.trans hnode)
      simp [ht] at htarget
  | follow hnode htarget _ ih =>
    cases hother with
    | here h => simp [h] at hnode
    | missing h ht =>
      obtain rfl := Option.some.inj (h.symm.trans hnode)
      simp [ht] at htarget
    | follow h ht hlast =>
      obtain rfl := Option.some.inj (h.symm.trans hnode)
      obtain rfl := Option.some.inj (ht.symm.trans htarget)
      exact ih hlast

/-! ### A search and its leaves -/

/-- A node with leaves has no infinite walk. -/
theorem Leaves.acc {node : Json} {leaves : List Json} (h : schema.Leaves x node leaves) :
    Acc (fun next current => schema.WalkStep x current next) node := by
  induction h with
  | missing hnode htarget =>
    refine ⟨_, fun next hnext => ?_⟩
    simp [hnext.target hnode] at htarget
  | follow hnode htarget _ ih =>
    refine ⟨_, fun next hnext => ?_⟩
    obtain rfl := Option.some.inj ((hnext.target hnode).symm.trans htarget)
    exact ih
  | leaf hnode hx => exact ⟨_, fun next hnext => absurd hnext (not_walkStep_of_recognizes hnode hx)⟩
  | gather _ hnode _ hbranches _ ih =>
    refine ⟨_, fun next hnext => ?_⟩
    obtain ⟨branches, hb, hmem⟩ := hnext.exists_branch hnode
    obtain rfl := Option.some.inj (hb.symm.trans hbranches)
    exact ih next hmem
  | nothing hnode _ hbranches =>
    refine ⟨_, fun next hnext => ?_⟩
    obtain ⟨branches, hb, -⟩ := hnext.exists_branch hnode
    simp [hb] at hbranches

/-- **Findings agree with leaves.** A relation between leaves and findings that holds where nothing
is found and at every leaf, and that combinators keep, holds of the result of a search and the
leaves of its node. `good` is any property of nodes that is passed on along walks. -/
theorem Explores.exists_leaves (agrees : List Json → α → Prop) (good : Json → Prop)
    (hgood : ∀ node next, good node → schema.WalkStep x node next → good next)
    (hfallback : agrees [] x.fallback)
    (hleaf : ∀ node, good node → x.recognizes node = true → agrees [node] (x.extract node))
    (hgather : ∀ (branches : List Json) (leaves : Json → List Json) (finding : Json → α),
      (∀ child ∈ branches, agrees (leaves child) (finding child)) →
      agrees (branches.flatMap leaves) (x.gather (branches.map finding)))
    {visiting : List String} {node : Json} {out : Except Cycle α}
    (h : schema.Explores x visiting node out) (hnode : good node) {found : α}
    (hout : out = .ok found) :
    ∃ leaves, schema.Leaves x node leaves ∧ agrees leaves found := by
  induction h generalizing found with
  | again => cases hout
  | missing href _ htarget =>
    cases hout
    exact ⟨[], .missing href htarget, hfallback⟩
  | follow href _ htarget _ ih =>
    obtain ⟨leaves, hleaves, hagrees⟩ := ih (hgood _ _ hnode (.follow href htarget)) hout
    exact ⟨leaves, .follow href htarget hleaves, hagrees⟩
  | found href hx =>
    cases hout
    exact ⟨_, .leaf href hx, hleaf _ hnode hx⟩
  | @gather _ _ branches finding href hx hbranches _ ih =>
    cases hout
    -- leaves for the branches, and anything for the other values, so that they can be chosen at
    -- once
    have hchild : ∀ child, ∃ leaves, child ∈ branches →
        schema.Leaves x child leaves ∧ agrees leaves (finding child) := by
      intro child
      by_cases hmem : child ∈ branches
      · obtain ⟨leaves, hleaves⟩ :=
          ih child hmem (hgood _ _ hnode (.branch href hx hbranches hmem)) rfl
        exact ⟨leaves, fun _ => hleaves⟩
      · exact ⟨[], fun h => absurd h hmem⟩
    choose leaves hleaves using hchild
    exact ⟨_, .gather leaves href hx hbranches fun child hmem => (hleaves child hmem).1,
      hgather _ leaves finding fun child hmem => (hleaves child hmem).2⟩
  | stop => cases hout
  | nothing href hx hbranches =>
    cases hout
    exact ⟨[], .nothing href hx hbranches, hfallback⟩

/-- What a search finds at the node where references lead. -/
def FoundAt (x : Extractor α) (found : α) : Option Json → Prop
  | none => found = x.fallback
  | some last =>
    if x.recognizes last then found = x.extract last
    else
      match last.branches? combinators with
      | some branches => ∃ finding : Json → α, found = x.gather (branches.map finding)
      | none => found = x.fallback

/-- References lead somewhere when the search succeeds, and it is there that the kind of result is
decided. -/
theorem Explores.exists_leads {visiting : List String} {node : Json} {out : Except Cycle α}
    (h : schema.Explores x visiting node out) {found : α} (hout : out = .ok found) :
    ∃ last, schema.Leads node last ∧ FoundAt x found last := by
  induction h with
  | again => cases hout
  | missing href _ htarget =>
    cases hout
    exact ⟨none, .missing href htarget, rfl⟩
  | follow href _ htarget _ ih =>
    obtain ⟨last, hlast, hfound⟩ := ih hout
    exact ⟨last, .follow href htarget hlast, hfound⟩
  | found href hx =>
    cases hout
    exact ⟨_, .here href, by rw [FoundAt, if_pos hx]⟩
  | gather finding href hx hbranches =>
    cases hout
    exact ⟨_, .here href, by rw [FoundAt, if_neg (by simp [hx]), hbranches]; exact ⟨finding, rfl⟩⟩
  | stop => cases hout
  | nothing href hx hbranches =>
    cases hout
    exact ⟨_, .here href, by rw [FoundAt, if_neg (by simp [hx]), hbranches]⟩

/-- A node has the leaves of the node where its references lead. -/
theorem Leads.leaves {node : Json} {last : Option Json} (h : schema.Leads node last)
    {leaves : List Json} (hleaves : ∀ n, last = some n → schema.Leaves x n leaves)
    (hnone : last = none → leaves = []) :
    schema.Leaves x node leaves := by
  induction h with
  | here => exact hleaves _ rfl
  | missing href htarget =>
    obtain rfl := hnone rfl
    exact .missing href htarget
  | follow href htarget _ ih => exact .follow href htarget (ih hleaves hnone)

/-- References lead to a node that is none. -/
theorem Leads.reference?_eq_none {node : Json} {last : Option Json} (h : schema.Leads node last) :
    ∀ n, last = some n → n.reference? = none := by
  induction h with
  | here href => rintro n ⟨⟩; exact href
  | missing => rintro n ⟨⟩
  | follow _ _ _ ih => exact ih

/-! ### Keyed schemas -/

/-- Walks stay among documents that repeat no name. -/
theorem isKeyed_of_walkStep (hroot : schema.root.isKeyed = true) (node next : Json)
    (hnode : node.isKeyed = true) (hstep : schema.WalkStep x node next) : next.isKeyed = true := by
  rcases hstep with ⟨-, htarget⟩ | ⟨-, -, hbranches, hnext⟩
  · exact Json.isKeyed_of_getPath? hroot htarget
  · obtain ⟨name, -, hname⟩ := List.exists_of_findSome?_eq_some hbranches
    obtain ⟨value, hvalue, harr⟩ := Option.bind_eq_some_iff.1 hname
    cases value with
    | arr items =>
      obtain rfl : items = _ := by simpa [Json.arr?] using harr
      exact Json.isKeyed_arr.1 (Json.isKeyed_of_get? hnode hvalue) next hnext
    | _ => simp [Json.arr?] at harr

theorem nodup_declaredProperties {node : Json} (h : node.isKeyed = true) :
    (Fields.names node.declaredProperties).Nodup := by
  rw [Json.declaredProperties]
  cases hprops : node.get? "properties" with
  | none => exact List.nodup_nil
  | some value =>
    cases value with
    | obj members => exact (Json.isKeyed_obj.1 (Json.isKeyed_of_get? h hprops)).1
    | _ => exact List.nodup_nil

/-! ### Property maps -/

/-- The properties that leaves describe: a name has the place of its first leaf and the node of its
last. -/
def leafProperties (leaves : List Json) : Properties :=
  Fields.ofList (leaves.flatMap Json.declaredProperties)

theorem foldl_putAll_filterMap {acc : Properties} (hacc : (Fields.names acc).Nodup)
    {branches : List Json} {leaves : Json → List Json} {finding : Json → Option Properties}
    (h : ∀ child ∈ branches, (finding child).getD [] = leafProperties (leaves child)) :
    ((branches.map finding).filterMap id).foldl Fields.putAll acc =
      Fields.putAll acc ((branches.flatMap leaves).flatMap Json.declaredProperties) := by
  induction branches generalizing acc with
  | nil => rfl
  | cons child rest ih =>
    have hchild := h child List.mem_cons_self
    -- what was put together for the branch is put once more, which changes nothing
    have hput : Fields.putAll acc ((finding child).getD []) =
        Fields.putAll acc ((leaves child).flatMap Json.declaredProperties) := by
      rw [hchild, leafProperties, Fields.putAll_ofList hacc]
    rw [List.flatMap_cons, List.flatMap_append, Fields.putAll_append, ← hput,
      ← ih (Fields.nodup_names_putAll hacc _) fun c hc => h c (List.mem_cons_of_mem _ hc)]
    cases hfound : finding child <;> simp [hfound, Fields.putAll]

/-- **A property map is the fields that the leaves describe.** -/
theorem exists_leaves_of_props {node : Json} (hroot : schema.root.isKeyed = true)
    (hnode : node.isKeyed = true) {out : Option Properties} (h : schema.props node = .ok out) :
    ∃ leaves, schema.Leaves propertyShape node leaves ∧ out.getD [] = leafProperties leaves := by
  refine Explores.exists_leaves (fun leaves found => found.getD [] = leafProperties leaves)
    (fun node => node.isKeyed = true) (isKeyed_of_walkStep hroot) rfl ?_ ?_
    ((explores_iff_search_eq schema propertyShape node _).2 h) hnode rfl
  · intro leaf hleaf _
    change leaf.declaredProperties = leafProperties [leaf]
    rw [leafProperties, List.flatMap_singleton,
      Fields.ofList_eq_self (nodup_declaredProperties hleaf)]
  · intro branches leaves finding hfinding
    exact @foldl_putAll_filterMap [] List.nodup_nil _ _ _ hfinding

/-! ### Lists of strings -/

/-- An extractor of strings that joins and sorts what branches give. -/
structure ListsStrings (x : Extractor (List String)) (strings : Json → List String) : Prop where
  /-- A leaf gives its strings. -/
  extract : ∀ node, x.extract node = strings node
  /-- Branches are joined and sorted. -/
  gather : x.gather = joinSorted
  /-- Nothing gives no strings. -/
  fallback : x.fallback = []

/-- The extractor of enumerations lists the strings of leaves. -/
theorem listsStrings_enumeration :
    ListsStrings enumeration fun leaf => Json.stringItems (leaf.get? "enum") :=
  ⟨fun _ => rfl, rfl, rfl⟩

/-- The extractor of discriminants lists the strings of leaves. -/
theorem listsStrings_discriminant :
    ListsStrings discriminant fun leaf => Json.stringItems (leaf.getPath? discriminantPath) :=
  ⟨fun _ => rfl, rfl, rfl⟩

/-- Joining keeps each string as often as it occurs. -/
theorem joinSorted_perm (parts : List (List String)) : (joinSorted parts).Perm parts.flatten :=
  List.mergeSort_perm _ _

/-- Joining sorts. -/
theorem pairwise_joinSorted (parts : List (List String)) : (joinSorted parts).Pairwise (· ≤ ·) := by
  have hle : (joinSorted parts).Pairwise fun a b => decide (a ≤ b) = true := by
    refine List.pairwise_mergeSort ?_ ?_ _
    · simpa using fun a b c : String => String.le_trans
    · simpa using fun a b : String => String.le_total a b
  simpa only [decide_eq_true_eq] using hle

/-- **A list of strings is a permutation of the strings of the leaves.** -/
theorem exists_leaves_of_strings {x : Extractor (List String)} {strings : Json → List String}
    (hx : ListsStrings x strings) {node : Json} {out : List String}
    (h : schema.search x node = .ok out) :
    ∃ leaves, schema.Leaves x node leaves ∧ out.Perm (leaves.flatMap strings) := by
  refine Explores.exists_leaves (fun leaves found => found.Perm (leaves.flatMap strings))
    (fun _ => True) (fun _ _ _ _ => trivial) ?_ ?_ ?_
    ((explores_iff_search_eq schema x node _).2 h) trivial rfl
  · rw [hx.fallback]
    exact .refl _
  · intro leaf _ _
    rw [hx.extract, List.flatMap_singleton]
  · intro branches leaves finding hfinding
    rw [hx.gather, List.flatMap_assoc]
    refine (joinSorted_perm _).trans ?_
    rw [← List.flatMap_def]
    exact List.Perm.flatMap_left _ hfinding

/-- Where references lead to a combinator, the list is sorted. -/
theorem pairwise_of_splits {x : Extractor (List String)} {strings : Json → List String}
    (hx : ListsStrings x strings) {node : Json} {out : List String}
    (h : schema.search x node = .ok out) (hsplits : schema.Splits x node) :
    out.Pairwise (· ≤ ·) := by
  obtain ⟨last, branches, hlast, hrec, hbranches⟩ := hsplits
  obtain ⟨other, hother, hfound⟩ := ((explores_iff_search_eq schema x node _).2 h).exists_leads rfl
  obtain rfl := hlast.unique hother
  rw [FoundAt, if_neg (by simp [hrec]), hbranches] at hfound
  obtain ⟨finding, rfl⟩ := hfound
  rw [hx.gather]
  exact pairwise_joinSorted _

/-- Where references lead to a leaf, the list is that of the leaf. -/
theorem eq_of_leads_leaf {x : Extractor (List String)} {strings : Json → List String}
    (hx : ListsStrings x strings) {node leaf : Json} {out : List String}
    (h : schema.search x node = .ok out) (hleaf : schema.Leads node (some leaf))
    (hrec : x.recognizes leaf = true) : schema.Leaves x node [leaf] ∧ out = strings leaf := by
  obtain ⟨other, hother, hfound⟩ := ((explores_iff_search_eq schema x node _).2 h).exists_leads rfl
  obtain rfl := hleaf.unique hother
  rw [FoundAt, if_pos hrec, hx.extract] at hfound
  -- a recognized node at the end of the references is the one leaf
  refine ⟨hleaf.leaves ?_ (by simp), hfound⟩
  rintro n ⟨⟩
  exact .leaf (hleaf.reference?_eq_none leaf rfl) hrec

/-! ### Results by their leaves -/

/-- These are the leaves of the node, and there are no others. -/
def HasLeaves (schema : Schema) (x : Extractor α) (node : Json) (leaves : List Json) : Prop :=
  ∀ other, schema.Leaves x node other ↔ other = leaves

theorem Leaves.hasLeaves {node : Json} {leaves : List Json} (h : schema.Leaves x node leaves) :
    schema.HasLeaves x node leaves :=
  fun _ => ⟨fun hother => hother.unique h, fun heq => heq ▸ h⟩

/-- What a search for strings gives, in terms of the leaves. -/
structure Lists (schema : Schema) (x : Extractor (List String)) (strings : Json → List String)
    (node : Json) (leaves : List Json) (out : List String) : Prop where
  /-- The strings are those of the leaves. -/
  perm : out.Perm (leaves.flatMap strings)
  /-- Behind a combinator they are in code-point order. -/
  sorted : schema.Splits x node → out.Pairwise (· ≤ ·)
  /-- Behind references alone they are in declared order. -/
  declared : ∀ leaf, schema.Leads node (some leaf) → x.recognizes leaf = true →
    leaves = [leaf] ∧ out = strings leaf
  /-- Without leaves there are none. -/
  empty : leaves = [] → out = []

/-- What is listed is what the leaves have, in order. -/
theorem exists_lists {x : Extractor (List String)} {strings : Json → List String}
    (hx : ListsStrings x strings) {node : Json} {out : List String}
    (h : schema.search x node = .ok out) :
    ∃ leaves, schema.HasLeaves x node leaves ∧ schema.Lists x strings node leaves out := by
  obtain ⟨leaves, hleaves, hperm⟩ := exists_leaves_of_strings hx h
  refine ⟨leaves, hleaves.hasLeaves, hperm, pairwise_of_splits hx h, fun leaf hleaf hrec => ?_, ?_⟩
  · obtain ⟨hone, hout⟩ := eq_of_leads_leaf hx h hleaf hrec
    exact ⟨hleaves.unique hone, hout⟩
  · rintro rfl
    exact hperm.eq_nil

/-- What a search for properties gives, in terms of the leaves: nothing where references alone lead
to nothing, and otherwise a map whose names are in the order of their first leaves and whose values
are those of their last. -/
structure Maps (schema : Schema) (node : Json) (leaves : List Json)
    (out : Option Properties) : Prop where
  /-- There is no map where references end at a missing target or at a node without a shape. -/
  none_iff : out = none ↔ schema.Leads node none ∨ ∃ last, schema.Leads node (some last) ∧
    last.isObjectShape = false ∧ last.branches? combinators = none
  /-- Names have the place of their first leaf. -/
  names : ∀ props, out = some props →
    Fields.names props = (leaves.flatMap fun leaf => Fields.names leaf.declaredProperties).eraseDups
  /-- Values are those of the last leaf that declares the name. -/
  value : ∀ props, out = some props → ∀ name, Fields.get? props name =
    leaves.reverse.findSome? fun leaf => Fields.get? leaf.declaredProperties name

theorem names_leafProperties (leaves : List Json) : Fields.names (leafProperties leaves) =
    (leaves.flatMap fun leaf => Fields.names leaf.declaredProperties).eraseDups := by
  rw [leafProperties, Fields.names_ofList, Fields.names, List.map_flatMap]
  rfl

/-- Of a property that several leaves have, the last leaf counts. -/
theorem get?_leafProperties {leaves : List Json}
    (h : ∀ leaf ∈ leaves, (Fields.names leaf.declaredProperties).Nodup) (name : String) :
    Fields.get? (leafProperties leaves) name =
      leaves.reverse.findSome? fun leaf => Fields.get? leaf.declaredProperties name := by
  rw [leafProperties, Fields.get?_ofList]
  induction leaves with
  | nil => rfl
  | cons leaf rest ih =>
    rw [List.flatMap_cons, List.reverse_append, Fields.get?_append, List.reverse_cons,
      List.findSome?_append, ih fun l hl => h l (List.mem_cons_of_mem _ hl),
      Fields.get?_reverse (h leaf List.mem_cons_self)]
    simp

/-- A property search gives no map exactly where there is nothing to search. -/
theorem props_eq_none_iff {node : Json} {out : Option Properties}
    (h : schema.props node = .ok out) :
    out = none ↔ schema.Leads node none ∨ ∃ last, schema.Leads node (some last) ∧
      last.isObjectShape = false ∧ last.branches? combinators = none := by
  obtain ⟨last, hlast, hfound⟩ :=
    ((explores_iff_search_eq schema propertyShape node _).2 h).exists_leads rfl
  cases last with
  | none =>
    obtain rfl : out = none := hfound
    exact iff_of_true rfl (Or.inl hlast)
  | some last =>
    -- references lead to one place, so the statement is about that node
    have hiff : (schema.Leads node none ∨ ∃ last, schema.Leads node (some last) ∧
        last.isObjectShape = false ∧ last.branches? combinators = none) ↔
        last.isObjectShape = false ∧ last.branches? combinators = none := by
      constructor
      · rintro (hnone | ⟨other, hother, hdead⟩)
        · cases hlast.unique hnone
        · obtain rfl := Option.some.inj (hlast.unique hother)
          exact hdead
      · exact fun hdead => Or.inr ⟨last, hlast, hdead⟩
    rw [hiff]
    change (if last.isObjectShape then _ else _) at hfound
    cases hshape : last.isObjectShape with
    | true =>
      rw [if_pos hshape] at hfound
      simp [hfound, propertyShape]
    | false =>
      rw [if_neg (by simp [hshape])] at hfound
      cases hbranches : last.branches? combinators with
      | none =>
        simp only [hbranches] at hfound
        simp [hfound, propertyShape]
      | some branches =>
        simp only [hbranches] at hfound
        obtain ⟨finding, rfl⟩ := hfound
        simp [propertyShape]

/-- All leaves of a keyed node are keyed. -/
theorem Leaves.isKeyed (hroot : schema.root.isKeyed = true) {node : Json} {leaves : List Json}
    (h : schema.Leaves x node leaves) (hnode : node.isKeyed = true) :
    ∀ leaf ∈ leaves, leaf.isKeyed = true := by
  induction h with
  | missing => simp
  | follow href htarget _ ih =>
    exact ih (isKeyed_of_walkStep hroot _ _ hnode (.follow (x := x) href htarget))
  | leaf => simpa using hnode
  | gather found href hx hbranches _ ih =>
    intro leaf hleaf
    obtain ⟨child, hchild, hmem⟩ := List.mem_flatMap.1 hleaf
    exact ih child hchild (isKeyed_of_walkStep hroot _ _ hnode (.branch href hx hbranches hchild))
      leaf hmem
  | nothing => simp

/-- What is mapped is what the leaves have, and of several the last one counts. -/
theorem exists_maps {node : Json} (hroot : schema.root.isKeyed = true) (hnode : node.isKeyed = true)
    {out : Option Properties} (h : schema.props node = .ok out) :
    ∃ leaves, schema.HasLeaves propertyShape node leaves ∧ schema.Maps node leaves out := by
  obtain ⟨leaves, hleaves, hout⟩ := exists_leaves_of_props hroot hnode h
  have hnodup : ∀ leaf ∈ leaves, (Fields.names leaf.declaredProperties).Nodup := fun leaf hleaf =>
    nodup_declaredProperties (hleaves.isKeyed hroot hnode leaf hleaf)
  refine ⟨leaves, hleaves.hasLeaves, props_eq_none_iff h, ?_, ?_⟩
  · rintro props rfl
    obtain rfl : props = leafProperties leaves := hout
    exact names_leafProperties leaves
  · rintro props rfl name
    obtain rfl : props = leafProperties leaves := hout
    exact get?_leafProperties hnodup name

/-! ### Regrouping -/

/-- The property map of a node that splits is that of its leaves. -/
theorem props_eq_of_splits {node : Json} {leaves : List Json} (hroot : schema.root.isKeyed = true)
    (hnode : node.isKeyed = true) (hsplits : schema.Splits propertyShape node)
    (hleaves : schema.Leaves propertyShape node leaves) :
    schema.props node = .ok (some (leafProperties leaves)) := by
  obtain ⟨last, branches, hlast, hrec, hbranches⟩ := hsplits
  obtain ⟨out, hout⟩ := (search_ok_iff_acc schema propertyShape node).2 hleaves.acc
  obtain ⟨other, hother, hfound⟩ := exists_leaves_of_props hroot hnode hout
  obtain rfl := hleaves.unique hother
  cases out with
  | some props =>
    obtain rfl : props = leafProperties leaves := hfound
    exact hout
  | none =>
    -- a node that splits is not one where references end without a shape
    exfalso
    rcases (props_eq_none_iff hout).1 rfl with h | ⟨last', h, -, hb⟩
    · cases hlast.unique h
    · obtain rfl := Option.some.inj (hlast.unique h)
      simp [hbranches] at hb

/-- Two nodes that both split, with one leaf sequence, have one list of strings. -/
theorem search_eq_of_leaves_eq {x : Extractor (List String)} {strings : Json → List String}
    (hx : ListsStrings x strings) {schema schema' : Schema} {node node' : Json} {leaves : List Json}
    (hsplits : schema.Splits x node) (hleaves : schema.Leaves x node leaves)
    (hsplits' : schema'.Splits x node') (hleaves' : schema'.Leaves x node' leaves) :
    schema'.search x node' = schema.search x node := by
  obtain ⟨out, hout⟩ := (search_ok_iff_acc schema x node).2 hleaves.acc
  obtain ⟨out', hout'⟩ := (search_ok_iff_acc schema' x node').2 hleaves'.acc
  obtain ⟨other, hother, hperm⟩ := exists_leaves_of_strings hx hout
  obtain ⟨other', hother', hperm'⟩ := exists_leaves_of_strings hx hout'
  obtain rfl := hleaves.unique hother
  obtain rfl := hleaves'.unique hother'
  rw [hout, hout']
  refine congrArg Except.ok ((hperm'.trans hperm.symm).eq_of_pairwise ?_
    (pairwise_of_splits hx hout' hsplits') (pairwise_of_splits hx hout hsplits))
  exact fun _ _ _ _ => String.le_antisymm

/-- The leaves behind a combinator determine the result of a search, in any keyed schema. -/
def Regroups (schema : Schema) (x : Extractor α) (node : Json) : Prop :=
  ∀ (schema' : Schema) (node' : Json) (leaves : List Json),
    schema'.root.isKeyed = true → node'.isKeyed = true →
    schema.Splits x node → schema.Leaves x node leaves →
    schema'.Splits x node' → schema'.Leaves x node' leaves →
    schema'.search x node' = schema.search x node

/-- **A search gives what its leaves say.** In a keyed schema, where the search for properties
succeeds, the map is that of the leaves; where a search for strings succeeds, the list is that of
the leaves; and behind a combinator neither depends on how the leaves are grouped. -/
theorem search_eq_leaf_semantics (schema : Schema) (node : Json)
    (hroot : schema.root.isKeyed = true) (hnode : node.isKeyed = true) :
    (∀ out, schema.props node = .ok out →
      ∃ leaves, schema.HasLeaves propertyShape node leaves ∧ schema.Maps node leaves out) ∧
    (∀ out, schema.enums node = .ok out →
      ∃ leaves, schema.HasLeaves enumeration node leaves ∧
        schema.Lists enumeration
          (fun leaf => Json.stringItems (leaf.get? "enum")) node leaves out) ∧
    (∀ out, schema.discriminants node = .ok out →
      ∃ leaves, schema.HasLeaves discriminant node leaves ∧
        schema.Lists discriminant (fun leaf =>
          Json.stringItems (leaf.getPath? discriminantPath)) node
          leaves out) ∧
    schema.Regroups propertyShape node ∧ schema.Regroups enumeration node ∧
    schema.Regroups discriminant node := by
  refine ⟨fun out => exists_maps hroot hnode, fun out => exists_lists listsStrings_enumeration,
    fun out => exists_lists listsStrings_discriminant, ?_, ?_, ?_⟩
  · intro schema' node' leaves hroot' hnode' hsplits hleaves hsplits' hleaves'
    exact (props_eq_of_splits hroot' hnode' hsplits' hleaves').trans
      (props_eq_of_splits hroot hnode hsplits hleaves).symm
  · intro schema' node' leaves _ _ hsplits hleaves hsplits' hleaves'
    exact search_eq_of_leaves_eq listsStrings_enumeration hsplits hleaves hsplits' hleaves'
  · intro schema' node' leaves _ _ hsplits hleaves hsplits' hleaves'
    exact search_eq_of_leaves_eq listsStrings_discriminant hsplits hleaves hsplits' hleaves'

/-- A schema with one enumeration. -/
def oneEnumeration : Schema :=
  ofJson (.obj [("definitions", .obj [("A", .obj [("enum", .arr [.str "b", .str "a"])])])])

/-- A node whose two branches refer to that enumeration. -/
def twoReferences : Json := .obj [("anyOf", .arr [definitionNode "A", definitionNode "A"])]

/-- A node that is reached twice gives its strings twice. -/
theorem enums_twoReferences :
    oneEnumeration.root.isKeyed = true ∧ twoReferences.isKeyed = true ∧
    oneEnumeration.enums twoReferences = .ok ["a", "a", "b", "b"] ∧
    ∃ leaves, oneEnumeration.HasLeaves enumeration twoReferences leaves ∧
      oneEnumeration.Lists enumeration
        (fun leaf => Json.stringItems (leaf.get? "enum")) twoReferences
        leaves ["a", "a", "b", "b"] := by
  have hroot : oneEnumeration.root.isKeyed = true := by decide
  have hnode : twoReferences.isKeyed = true := by decide
  have henums : oneEnumeration.enums twoReferences = .ok ["a", "a", "b", "b"] := by cbv
  obtain ⟨-, hlists, -⟩ := search_eq_leaf_semantics oneEnumeration twoReferences hroot hnode
  exact ⟨hroot, hnode, henums, hlists _ henums⟩

end Schema

end BuilderApi
