import BuilderApi.Proofs.Fields
import BuilderApi.Proofs.Results
import BuilderApi.Schema.Search
import Mathlib.Logic.Relation
import Mathlib.Order.WellFounded

/-!
# Walks through a schema, and the cycles that a search reports

A search that follows references could run forever. What it can reach is a walk: from a reference to
its target, and from a combinator that the extractor does not recognize to one of its branches
(`BuilderApi.Schema.WalkStep`).

The obvious way to stop is to carry the references that are being followed and to give up at one
that is met again. That recursion is spelt out here as a relation, `BuilderApi.Schema.Explores`,
which has no measure and no bound: a derivation of it is a run that ends. The search itself carries
the references that are still fresh. The two agree because no reference can turn up that the search
does not know from the start (`BuilderApi.Schema.explores_searchFrom`), so the guarded recursion
ends on every document.

What the answer means is then read off the runs, by induction:

* a run that succeeds has seen every walk from its node, and so there is no infinite one
  (`BuilderApi.Schema.Explores.acc`);
* a run that fails names a reference that leads back to itself
  (`BuilderApi.Schema.Explores.exists_loop`), and going round for ever is an infinite walk.
-/

namespace BuilderApi

open Relation

/-! ### The references that can turn up -/

namespace Json

theorem memberReferences_subset_cons (member : String × Json) (rest : List (String × Json)) :
    memberReferences rest ⊆ memberReferences (member :: rest) := by
  obtain ⟨k, v⟩ := member
  cases v <;> simp [memberReferences]

theorem references_subset_memberReferences (k : String) (v : Json) (rest : List (String × Json)) :
    v.references ⊆ memberReferences ((k, v) :: rest) := by
  cases v <;> simp [memberReferences, references]

/-- The reference of a node is one of those in it. -/
theorem mem_references_of_get? {node : Json} {reference : String}
    (h : node.get? referenceName = some (.str reference)) : reference ∈ node.references := by
  cases node with
  | obj members =>
    change Fields.get? members referenceName = some (.str reference) at h
    rw [references]
    induction members with
    | nil => simp at h
    | cons member rest ih =>
      obtain ⟨k, v⟩ := member
      by_cases hk : k = referenceName
      · rw [Fields.get?, if_pos hk, Option.some.injEq] at h
        simp [h, hk, memberReferences]
      · rw [Fields.get?, if_neg hk] at h
        exact memberReferences_subset_cons _ _ (ih h)
  | _ => simp [get?] at h

/-- The reference that a node is occurs in it. -/
theorem mem_references_of_reference? {node : Json} {reference : String}
    (h : node.reference? = some reference) : reference ∈ node.references := by
  obtain ⟨value, hvalue, hstr⟩ := Option.bind_eq_some_iff.1 h
  cases value with
  | str s =>
    obtain rfl : s = reference := by simpa [str?] using hstr
    exact mem_references_of_get? hvalue
  | _ => simp [str?] at hstr

theorem memberReferences_subset {members : List (String × Json)} {name : String} {value : Json}
    (h : Fields.get? members name = some value) : value.references ⊆ memberReferences members := by
  induction members with
  | nil => simp at h
  | cons member rest ih =>
    obtain ⟨k, v⟩ := member
    by_cases hk : k = name
    · rw [Fields.get?, if_pos hk, Option.some.injEq] at h
      exact h ▸ references_subset_memberReferences k v rest
    · rw [Fields.get?, if_neg hk] at h
      exact List.Subset.trans (ih h) (memberReferences_subset_cons _ _)

/-- The references of a member occur in the object. -/
theorem references_subset_of_get? {node value : Json} {name : String}
    (h : node.get? name = some value) :
    value.references ⊆ node.references := by
  cases node with
  | obj members =>
    rw [references]
    exact memberReferences_subset (show Fields.get? members name = some value from h)
  | _ => simp [get?] at h

/-- The references of an item are among those of the list. -/
theorem itemReferences_subset {items : List Json} {item : Json} (h : item ∈ items) :
    item.references ⊆ itemReferences items := by
  induction items with
  | nil => simp at h
  | cons first rest ih =>
    rw [itemReferences]
    rcases List.mem_cons.1 h with rfl | hmem
    · exact List.subset_append_left _ _
    · exact List.Subset.trans (ih hmem) (List.subset_append_right _ _)

/-- The references of a branch occur in the node. -/
theorem references_subset_of_branch {names : List String} {node branch : Json}
    {branches : List Json} (h : node.branches? names = some branches) (hb : branch ∈ branches) :
    branch.references ⊆ node.references := by
  obtain ⟨name, -, hname⟩ := List.exists_of_findSome?_eq_some h
  obtain ⟨value, hv, harr⟩ := Option.bind_eq_some_iff.1 hname
  cases value with
  | arr items =>
    obtain rfl : items = branches := by simpa [arr?] using harr
    exact List.Subset.trans (itemReferences_subset hb) (references_subset_of_get? hv)
  | _ => simp [arr?] at harr

/-- The references of the node at the end of a path occur in the node at its start. -/
theorem references_subset_of_getPath? {path : List String} {node value : Json}
    (h : node.getPath? path = some value) : value.references ⊆ node.references := by
  induction path generalizing node with
  | nil =>
    obtain rfl : node = value := by simpa [getPath?] using h
    exact List.Subset.refl _
  | cons name rest ih =>
    obtain ⟨next, hnext, hrest⟩ := Option.bind_eq_some_iff.1 h
    exact List.Subset.trans (ih hrest) (references_subset_of_get? hnext)

end Json

namespace Schema

variable {α : Type} (schema : Schema) (x : Extractor α)

/-! ### Walks and guarded runs -/

/-- A step of a walk: from a reference to its target, or from a combinator that is not recognized to
one of its branches. -/
inductive WalkStep : Json → Json → Prop
  /-- To the target of a reference. -/
  | follow {node target : Json} {reference : String} (hnode : node.reference? = some reference)
      (htarget : schema.lookup reference = some target) : WalkStep node target
  /-- To a branch of the first combinator. -/
  | branch {node child : Json} {branches : List Json} (hnode : node.reference? = none)
      (hx : x.recognizes node = false) (hbranches : node.branches? combinators = some branches)
      (hchild : child ∈ branches) : WalkStep node child

/-- A walk of any length, also of none. -/
abbrev Walk : Json → Json → Prop := ReflTransGen (schema.WalkStep x)

/-- **The guarded recursion**, as a relation: from a node, while these references are being
followed, the run ends with this result. -/
inductive Explores : List String → Json → Except Cycle α → Prop
  /-- A reference that is being followed is met again. -/
  | again {visiting : List String} {node : Json} {reference : String}
      (hnode : node.reference? = some reference) (hmem : reference ∈ visiting) :
      Explores visiting node (.error ⟨reference⟩)
  /-- A reference has no target. -/
  | missing {visiting : List String} {node : Json} {reference : String}
      (hnode : node.reference? = some reference) (hmem : reference ∉ visiting)
      (htarget : schema.lookup reference = none) : Explores visiting node (.ok x.fallback)
  /-- A reference is followed. -/
  | follow {visiting : List String} {node target : Json} {reference : String} {out : Except Cycle α}
      (hnode : node.reference? = some reference) (hmem : reference ∉ visiting)
      (htarget : schema.lookup reference = some target)
      (hrun : Explores (reference :: visiting) target out) : Explores visiting node out
  /-- The extractor recognizes the node. -/
  | found {visiting : List String} {node : Json} (hnode : node.reference? = none)
      (hx : x.recognizes node = true) : Explores visiting node (.ok (x.extract node))
  /-- All branches of a combinator are explored, and their findings are combined. -/
  | gather {visiting : List String} {node : Json} {branches : List Json} (finding : Json → α)
      (hnode : node.reference? = none) (hx : x.recognizes node = false)
      (hbranches : node.branches? combinators = some branches)
      (hrun : ∀ child ∈ branches, Explores visiting child (.ok (finding child))) :
      Explores visiting node (.ok (x.gather (branches.map finding)))
  /-- The first branch that fails stops the run. -/
  | stop {visiting : List String} {node child : Json} {before after : List Json} {cycle : Cycle}
      (finding : Json → α) (hnode : node.reference? = none) (hx : x.recognizes node = false)
      (hbranches : node.branches? combinators = some (before ++ child :: after))
      (hbefore : ∀ other ∈ before, Explores visiting other (.ok (finding other)))
      (hrun : Explores visiting child (.error cycle)) : Explores visiting node (.error cycle)
  /-- There is nothing to explore. -/
  | nothing {visiting : List String} {node : Json} (hnode : node.reference? = none)
      (hx : x.recognizes node = false) (hbranches : node.branches? combinators = none) :
      Explores visiting node (.ok x.fallback)

/-! ### The search is the guarded recursion -/

variable {schema x}

/-- At a reference the search goes on at its target, unless it was there before. -/
theorem searchFrom_of_reference {fresh : List String} {node : Json} {reference : String}
    (h : node.reference? = some reference) :
    schema.searchFrom x fresh node =
      if reference ∈ fresh then
        match schema.lookup reference with
        | some target => schema.searchFrom x (fresh.erase reference) target
        | none => .ok x.fallback
      else .error ⟨reference⟩ := by
  rw [searchFrom]
  split
  · rename_i r hr
    obtain rfl : reference = r := by simpa [h] using hr
    rfl
  · rename_i hr
    simp [h] at hr

/-- Without reference the search extracts, or goes on in the branches. -/
theorem searchFrom_of_none {fresh : List String} {node : Json} (h : node.reference? = none) :
    schema.searchFrom x fresh node =
      if x.recognizes node then .ok (x.extract node)
      else
        match node.branches? combinators with
        | some branches => (branches.mapM (schema.searchFrom x fresh)).map x.gather
        | none => .ok x.fallback := by
  rw [searchFrom]
  split
  · rename_i r hr
    simp [h] at hr
  · split
    · rfl
    · split
      · rename_i branches hb
        -- the recursion keeps the proofs of membership for its measure only
        rw [mapM_attach branches]
        simp only [hb]
        cases branches.mapM (schema.searchFrom x fresh) <;> rfl
      · rename_i hb
        rw [hb]

/-- What a search knows, on the way to a node: the fresh references are not being followed, and
every reference that can turn up behind the node is one or the other. -/
structure Knows (schema : Schema) (fresh visiting : List String) (node : Json) : Prop where
  /-- No fresh reference occurs twice. -/
  nodup : fresh.Nodup
  /-- A fresh reference is not being followed. -/
  disjoint : ∀ reference ∈ fresh, reference ∉ visiting
  /-- The references of the document are known. -/
  root : ∀ reference ∈ schema.root.references, reference ∈ fresh ∨ reference ∈ visiting
  /-- The references of the node are known. -/
  node : ∀ reference ∈ node.references, reference ∈ fresh ∨ reference ∈ visiting

namespace Knows

variable {fresh visiting : List String} {node : Json}

/-- A branch brings no new references. -/
theorem branch {names : List String} {branches : List Json} {child : Json}
    (h : Knows schema fresh visiting node) (hbranches : node.branches? names = some branches)
    (hchild : child ∈ branches) : Knows schema fresh visiting child :=
  { h with node := fun r hr => h.node r (Json.references_subset_of_branch hbranches hchild hr) }

/-- Following a reference uses it up, and its target lies in the document. -/
theorem follow {reference : String} {target : Json} (h : Knows schema fresh visiting node)
    (htarget : schema.lookup reference = some target) :
    Knows schema (fresh.erase reference) (reference :: visiting) target := by
  have hroot : ∀ r ∈ schema.root.references, r ∈ fresh.erase reference ∨
      r ∈ reference :: visiting := by
    intro r hr
    by_cases hrr : r = reference
    · exact Or.inr (hrr ▸ List.mem_cons_self)
    · rcases h.root r hr with hf | hv
      · exact Or.inl ((List.mem_erase_of_ne hrr).2 hf)
      · exact Or.inr (List.mem_cons_of_mem _ hv)
  refine ⟨h.nodup.erase reference, fun r hr => ?_, hroot, fun r hr => ?_⟩
  · rw [h.nodup.mem_erase_iff] at hr
    rintro hmem
    rcases List.mem_cons.1 hmem with heq | hv
    · exact hr.1 heq
    · exact h.disjoint r hr.2 hv
  · exact hroot r (Json.references_subset_of_getPath? htarget hr)

/-- A reference that is not fresh is being followed. -/
theorem mem_visiting {reference : String} (h : Knows schema fresh visiting node)
    (hnode : node.reference? = some reference) (hfresh : reference ∉ fresh) :
    reference ∈ visiting :=
  (h.node reference (Json.mem_references_of_reference? hnode)).resolve_left hfresh

/-- A reference that is not being followed is fresh. -/
theorem mem_fresh {reference : String} (h : Knows schema fresh visiting node)
    (hnode : node.reference? = some reference) (hmem : reference ∉ visiting) : reference ∈ fresh :=
  (h.node reference (Json.mem_references_of_reference? hnode)).resolve_right hmem

end Knows

/-- **The search is the guarded recursion**: carrying what is fresh is carrying what is being
followed. -/
theorem explores_searchFrom {fresh visiting : List String} {node : Json}
    (h : Knows schema fresh visiting node) :
    schema.Explores x visiting node (schema.searchFrom x fresh node) := by
  -- on the number of fresh references and, below it, on the size of the node
  induction hn : fresh.length using Nat.strong_induction_on generalizing fresh visiting node with
  | _ n ihn =>
  induction hm : sizeOf node using Nat.strong_induction_on generalizing node with
  | _ m ihm =>
  cases hnode : node.reference? with
  | some reference =>
    rw [searchFrom_of_reference hnode]
    by_cases hfresh : reference ∈ fresh
    · rw [if_pos hfresh]
      cases htarget : schema.lookup reference with
      | none => exact .missing hnode (h.disjoint reference hfresh) htarget
      | some target =>
        -- the reference is used up, so one fresh reference less is left for its target
        have hlt : (fresh.erase reference).length < n := by
          have := List.length_pos_of_mem hfresh
          rw [List.length_erase_of_mem hfresh]
          omega
        exact .follow hnode (h.disjoint reference hfresh) htarget (ihn _ hlt (h.follow htarget) rfl)
    · rw [if_neg hfresh]
      exact .again hnode (h.mem_visiting hnode hfresh)
  | none =>
    rw [searchFrom_of_none hnode]
    cases hx : x.recognizes node with
    | true => exact .found hnode hx
    | false =>
      rw [if_neg Bool.false_ne_true]
      cases hbranches : node.branches? combinators with
      | none => exact .nothing hnode hx hbranches
      | some branches =>
        -- the same references are fresh for the branches, which are smaller
        have hrun : ∀ child ∈ branches,
            schema.Explores x visiting child (schema.searchFrom x fresh child) :=
              fun child hchild =>
          ihm _ (hm ▸ Json.sizeOf_branch_lt hbranches hchild) (h.branch hbranches hchild) rfl
        cases hparts : branches.mapM (schema.searchFrom x fresh) with
        | ok parts =>
          obtain ⟨hok, rfl⟩ := eq_map_of_mapM_eq_ok x.fallback hparts
          simp only [hparts, Except.map]
          exact .gather _ hnode hx hbranches fun child hchild =>
            hok child hchild ▸ hrun child hchild
        | error cycle =>
          obtain ⟨before, child, after, rfl, hbefore, hchild⟩ :=
            exists_split_of_mapM_eq_error hparts
          simp only [hparts, Except.map]
          refine .stop (fun other => (schema.searchFrom x fresh other).toOption.getD x.fallback)
            hnode hx hbranches (fun other hother => ?_) (hchild ▸ hrun child (by simp))
          obtain ⟨out, hout⟩ := hbefore other hother
          have hrun := hrun other (List.mem_append_left _ hother)
          rw [hout] at hrun ⊢
          exact hrun

/-- **The guarded recursion has no other runs** than the search. -/
theorem Explores.eq_searchFrom {fresh visiting : List String} {node : Json} {out : Except Cycle α}
    (hrun : schema.Explores x visiting node out) (h : Knows schema fresh visiting node) :
    out = schema.searchFrom x fresh node := by
  induction hrun generalizing fresh with
  | again hnode hmem =>
    rw [searchFrom_of_reference hnode, if_neg fun hfresh => h.disjoint _ hfresh hmem]
  | missing hnode hmem htarget =>
    rw [searchFrom_of_reference hnode, if_pos (h.mem_fresh hnode hmem), htarget]
  | follow hnode hmem htarget _ ih =>
    rw [searchFrom_of_reference hnode, if_pos (h.mem_fresh hnode hmem), htarget]
    exact ih (h.follow htarget)
  | found hnode hx => rw [searchFrom_of_none hnode, if_pos hx]
  | @gather _ _ branches finding hnode hx hbranches _ ih =>
    have hparts : branches.mapM (schema.searchFrom x fresh) = .ok (branches.map finding) := by
      rw [mapM_eq_ok_iff, List.map_map]
      exact List.map_congr_left fun child hchild =>
        (ih child hchild (h.branch hbranches hchild)).symm
    rw [searchFrom_of_none hnode, if_neg (by simp [hx]), hbranches]
    simp only [hparts, Except.map]
  | @stop _ _ _ _ after _ _ hnode hx hbranches _ _ ihbefore ih =>
    have hparts := mapM_append_cons_of_error (f := schema.searchFrom x fresh) after
      (fun other hother =>
        ⟨_, (ihbefore other hother (h.branch hbranches (by simp [hother]))).symm⟩)
      (ih (h.branch hbranches (by simp))).symm
    rw [searchFrom_of_none hnode, if_neg (by simp [hx]), hbranches]
    simp only [hparts, Except.map]
  | nothing hnode hx hbranches => rw [searchFrom_of_none hnode, if_neg (by simp [hx]), hbranches]

/-- A search starts with all it can meet still fresh, and with nothing being followed. -/
theorem knows_search (schema : Schema) (node : Json) :
    Knows schema (node.references.foldr List.insert schema.references) [] node := by
  change Knows schema (node.references ∪ schema.references) [] node
  rw [schema.references_eq]
  refine ⟨List.Nodup.union _ (nodup_eraseDups _), by simp, fun r hr => Or.inl ?_,
    fun r hr => Or.inl ?_⟩
  · exact List.mem_union_iff.2 (Or.inr (List.mem_eraseDups.2 hr))
  · exact List.mem_union_iff.2 (Or.inl hr)

/-- **The guarded recursion ends** on every document and at every node, with the result of the
search. -/
theorem explores_iff_search_eq (schema : Schema) (x : Extractor α) (node : Json)
    (out : Except Cycle α) : schema.Explores x [] node out ↔ schema.search x node = out := by
  constructor
  · intro hrun
    exact (hrun.eq_searchFrom (knows_search schema node)).symm
  · rintro rfl
    exact explores_searchFrom (knows_search schema node)

/-! ### What a run says about walks -/

/-- A node that is recognized is the end of every walk. -/
theorem not_walkStep_of_recognizes {node next : Json} (hnode : node.reference? = none)
    (hx : x.recognizes node = true) : ¬schema.WalkStep x node next := by
  rintro (⟨h, -⟩ | ⟨-, h, -, -⟩)
  · simp [hnode] at h
  · simp [hx] at h

/-- A step from a reference goes to its target. -/
theorem WalkStep.target {node next : Json} {reference : String} (h : schema.WalkStep x node next)
    (hnode : node.reference? = some reference) : schema.lookup reference = some next := by
  rcases h with ⟨h, htarget⟩ | ⟨h, -, -, -⟩
  · obtain rfl : reference = _ := by simpa [hnode] using h
    exact htarget
  · simp [hnode] at h

/-- A step from a node that is no reference goes to one of its branches. -/
theorem WalkStep.exists_branch {node next : Json} (h : schema.WalkStep x node next)
    (hnode : node.reference? = none) :
    ∃ branches, node.branches? combinators = some branches ∧ next ∈ branches := by
  rcases h with ⟨h, -⟩ | ⟨-, -, hbranches, hnext⟩
  · simp [hnode] at h
  · exact ⟨_, hbranches, hnext⟩

namespace Explores

variable {visiting : List String} {node : Json}

/-- **A run that succeeds has seen every walk**, and so all of them end. -/
theorem acc {out : Except Cycle α} (h : schema.Explores x visiting node out) {found : α}
    (hout : out = .ok found) : Acc (fun next current => schema.WalkStep x current next) node := by
  induction h generalizing found with
  | again => cases hout
  | missing hnode _ htarget =>
    -- a step from a reference needs a target
    refine ⟨_, fun next hnext => ?_⟩
    simp [hnext.target hnode] at htarget
  | follow hnode _ htarget _ ih =>
    refine ⟨_, fun next hnext => ?_⟩
    obtain rfl := Option.some.inj ((hnext.target hnode).symm.trans htarget)
    exact ih hout
  | found hnode hx =>
    exact ⟨_, fun next hnext => absurd hnext (not_walkStep_of_recognizes hnode hx)⟩
  | gather _ hnode _ hbranches _ ih =>
    refine ⟨_, fun next hnext => ?_⟩
    obtain ⟨branches, hb, hmem⟩ := hnext.exists_branch hnode
    obtain rfl := Option.some.inj (hb.symm.trans hbranches)
    exact ih next hmem rfl
  | stop => cases hout
  | nothing hnode _ hbranches =>
    refine ⟨_, fun next hnext => ?_⟩
    obtain ⟨branches, hb, -⟩ := hnext.exists_branch hnode
    simp [hb] at hbranches

/-- **A run that fails names a loop.** If every reference that is being followed leads to the node,
the reference of the failure is met on a walk from the start, and met again on a walk from its
target. -/
theorem exists_loop {out : Except Cycle α} (h : schema.Explores x visiting node out) {start : Json}
    (hstart : schema.Walk x start node)
    (hvisiting : ∀ reference ∈ visiting, ∃ first target, schema.Walk x start first ∧
      first.reference? = some reference ∧ schema.lookup reference = some target ∧
      schema.Walk x target node) {reference : String} (hout : out = .error ⟨reference⟩) :
    ∃ first target second, schema.Walk x start first ∧ first.reference? = some reference ∧
      schema.lookup reference = some target ∧ schema.Walk x target second ∧
      second.reference? = some reference := by
  induction h with
  | again hnode hmem =>
    -- the chain of references that are being followed closes here
    obtain rfl : _ = reference := by simpa using hout
    obtain ⟨first, target, hfirst, href, htarget, hwalk⟩ := hvisiting _ hmem
    exact ⟨first, target, _, hfirst, href, htarget, hwalk, hnode⟩
  | follow hnode _ htarget _ ih =>
    have hstep : schema.WalkStep x _ _ := .follow hnode htarget
    refine ih (hstart.tail hstep) (fun r hr => ?_) hout
    rcases List.mem_cons.1 hr with rfl | hmem
    · exact ⟨_, _, hstart, hnode, htarget, .refl⟩
    · obtain ⟨first, target, hfirst, href, ht, hwalk⟩ := hvisiting r hmem
      exact ⟨first, target, hfirst, href, ht, hwalk.tail hstep⟩
  | @stop _ node child _ _ _ _ hnode hx hbranches _ _ _ ih =>
    -- the branches in front of this one have nothing to do with the failure
    have hstep : schema.WalkStep x node child := .branch hnode hx hbranches (by simp)
    refine ih (hstart.tail hstep) (fun r hr => ?_) hout
    obtain ⟨first, target, hfirst, href, ht, hwalk⟩ := hvisiting r hr
    exact ⟨first, target, hfirst, href, ht, hwalk.tail hstep⟩
  | missing => cases hout
  | found => cases hout
  | gather => cases hout
  | nothing => cases hout

end Explores

/-! ### Infinite walks -/

/-- A walk that never ends. -/
def InfiniteWalk (schema : Schema) (x : Extractor α) (node : Json) : Prop :=
  ∃ walk : ℕ → Json, walk 0 = node ∧ ∀ i, schema.WalkStep x (walk i) (walk (i + 1))

/-- A walk is infinite exactly where the steps are not well founded. -/
theorem infiniteWalk_iff_not_acc {node : Json} :
    schema.InfiniteWalk x node ↔ ¬Acc (fun next current => schema.WalkStep x current next) node :=
  (not_acc_iff_exists_descending_chain (r :=
    fun next current => schema.WalkStep x current next)).symm

/-- What a walk leads to is accessible where its start is. -/
theorem acc_of_walk {node last : Json} (hwalk : schema.Walk x node last)
    (h : Acc (fun next current => schema.WalkStep x current next) node) :
    Acc (fun next current => schema.WalkStep x current next) last := by
  induction hwalk with
  | refl => exact h
  | tail _ hstep ih => exact ih.inv hstep

/-- No walk from an accessible node comes back to it. -/
theorem not_transGen_self_of_acc {node : Json}
    (h : Acc (fun next current => schema.WalkStep x current next) node) :
    ¬TransGen (schema.WalkStep x) node node := by
  -- a loop would be a step down to the node itself
  have hacc : Acc (TransGen fun next current => schema.WalkStep x current next) node := h.transGen
  induction hacc with
  | intro node _ ih =>
    intro hloop
    have hback : TransGen (fun next current => schema.WalkStep x current next) node node :=
      transGen_swap.1 hloop
    exact ih node hback h hloop

/-- **A search that succeeds has no infinite walk**, and one that fails has. -/
theorem search_ok_iff_acc (schema : Schema) (x : Extractor α) (node : Json) :
    (∃ found, schema.search x node = .ok found) ↔
      Acc (fun next current => schema.WalkStep x current next) node := by
  have hrun := (explores_iff_search_eq schema x node _).2 rfl
  constructor
  · rintro ⟨found, hfound⟩
    exact hrun.acc hfound
  · intro hacc
    cases hout : schema.search x node with
    | ok found => exact ⟨found, rfl⟩
    | error cycle =>
      obtain ⟨first, target, second, hfirst, href, htarget, hwalk, hsecond⟩ :=
        hrun.exists_loop .refl (by simp) hout
      have hloop : TransGen (schema.WalkStep x) target target :=
        TransGen.tail' hwalk (.follow hsecond htarget)
      have hreach : schema.Walk x node target := hfirst.tail (.follow href htarget)
      exact absurd hloop (not_transGen_self_of_acc (acc_of_walk hreach hacc))

/-- **A search ends, and fails exactly where a walk never ends.** The guarded recursion has one run
from a node, and its result is that of the search. The search fails when there is an infinite walk,
and then names a reference that a walk from the node meets and a walk from the reference's target
meets again. So where no walk comes back to a node it has left, however many walks share it, the
search succeeds. -/
theorem search_error_iff_infiniteWalk (schema : Schema) (x : Extractor α) (node : Json) :
    (∀ out, schema.Explores x [] node out ↔ schema.search x node = out) ∧
    ((∃ cycle, schema.search x node = .error cycle) ↔ schema.InfiniteWalk x node) ∧
    (∀ reference, schema.search x node = .error ⟨reference⟩ →
      ∃ first target second, schema.Walk x node first ∧ first.reference? = some reference ∧
        schema.lookup reference = some target ∧ schema.Walk x target second ∧
        second.reference? = some reference) ∧
    ((∀ other, schema.Walk x node other → ¬TransGen (schema.WalkStep x) other other) →
      ∃ found, schema.search x node = .ok found) := by
  have hrun := (explores_iff_search_eq schema x node _).2 rfl
  refine ⟨explores_iff_search_eq schema x node, ?_,
    fun reference hout => hrun.exists_loop .refl (by simp) hout, fun hacyclic => ?_⟩
  · rw [infiniteWalk_iff_not_acc, ← search_ok_iff_acc]
    cases schema.search x node <;> simp
  · cases hout : schema.search x node with
    | ok found => exact ⟨found, rfl⟩
    | error cycle =>
      obtain ⟨first, target, second, hfirst, href, htarget, hwalk, hsecond⟩ :=
        hrun.exists_loop .refl (by simp) hout
      exact absurd (TransGen.tail' hwalk (.follow hsecond htarget))
        (hacyclic target (hfirst.tail (.follow href htarget)))

end Schema

end BuilderApi
