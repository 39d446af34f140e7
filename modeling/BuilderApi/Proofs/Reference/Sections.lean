import BuilderApi.Proofs.Fields
import BuilderApi.Reference.Index

/-!
# The sections of the category index

The index takes the documented entries one by one and adds each to the section of its category. What
comes of it is a stable grouping (`BuilderApi.Reference.sections_eq`): the categories in the order
in which they first occur, and under each of them its entries in table order. So the sections have
the documented entries, each once, and nothing else (`BuilderApi.Reference.sections_perm`).
-/

namespace BuilderApi

namespace Fields

variable {α : Type} {fields other : Fields α} {name : String}

/-- Fields with the same names are the same if they agree under those names; the default is never
used. -/
theorem ext_getD (default : α) (hfields : (names fields).Nodup)
    (hnames : names fields = names other)
    (hget : ∀ name, (get? fields name).getD default = (get? other name).getD default) :
    fields = other := by
  refine ext hfields hnames fun name => ?_
  by_cases hname : name ∈ names fields
  · obtain ⟨value, hvalue⟩ := Option.ne_none_iff_exists'.1 fun h => get?_eq_none_iff.1 h hname
    obtain ⟨value', hvalue'⟩ := Option.ne_none_iff_exists'.1 fun h =>
      get?_eq_none_iff.1 h (hnames ▸ hname)
    have := hget name
    rw [hvalue, hvalue', Option.getD_some, Option.getD_some] at this
    rw [hvalue, hvalue', this]
  · rw [get?_eq_none_iff.2 hname, get?_eq_none_iff.2 (hnames ▸ hname)]

theorem get?_tabulate (f : String → α) (keys : List String) (name : String) :
    get? (keys.map fun key => (key, f key)) name = if name ∈ keys then some (f name) else none := by
  induction keys with
  | nil => rfl
  | cons key rest ih =>
    rw [List.map_cons, get?]
    by_cases hkey : key = name
    · simp [hkey]
    · simp [hkey, Ne.symm hkey, ih]

end Fields

/-- Groups that cover a list have its elements, in another order. -/
theorem flatMap_filter_perm {α κ : Type} [DecidableEq κ] (key : α → κ) {keys : List κ}
    (hkeys : keys.Nodup) {items : List α} (hitems : ∀ a ∈ items, key a ∈ keys) :
    (keys.flatMap fun k => items.filter fun a => key a = k).Perm items := by
  induction keys generalizing items with
  | nil =>
    cases items with
    | nil => exact .nil
    | cons a items => exact absurd (hitems a List.mem_cons_self) List.not_mem_nil
  | cons k keys ih =>
    obtain ⟨hk, hkeys⟩ := List.nodup_cons.1 hkeys
    have hothers : ∀ a ∈ items.filter (fun a => !decide (key a = k)), key a ∈ keys := by
      intro a ha
      obtain ⟨ha, hne⟩ := List.mem_filter.1 ha
      exact (List.mem_cons.1 (hitems a ha)).resolve_left (by simpa using hne)
    -- the later groups miss nothing when the elements of the first one are left out
    have hgroups :
        ∀ k' ∈ keys, ((items.filter fun a => !decide (key a = k)).filter fun a => key a = k') =
        items.filter fun a => key a = k' := by
      intro k' hk'
      rw [List.filter_filter]
      refine List.filter_congr fun a _ => ?_
      by_cases ha : key a = k' <;> simp [ha]
      rintro rfl
      exact hk hk'
    rw [List.flatMap_cons, ← List.flatMap_congr hgroups]
    exact ((ih hkeys hothers).append_left _).trans (List.filter_append_perm _ items)

/-- The entries of a table that are not private. -/
def Table.exposed (table : Table) : Table :=
  table.filter fun field => Visibility.of field.1 ≠ .isPrivate

namespace Reference

variable {found : Fields (List (String × Entry))} {items : List (String × Entry)}

theorem nodup_names_addToSection (h : (Fields.names found).Nodup) (item : String × Entry) :
    (Fields.names (addToSection found item)).Nodup :=
  Fields.nodup_names_put h _ _

theorem names_foldl_addToSection (h : (Fields.names found).Nodup) :
    Fields.names (items.foldl addToSection found) =
      (Fields.names found ++ items.map fun item => sectionOf item.2).eraseDups := by
  induction items generalizing found with
  | nil => rw [List.map_nil, List.append_nil, eraseDups_of_nodup h, List.foldl_nil]
  | cons item items ih =>
    rw [List.foldl_cons, ih (nodup_names_addToSection h item), addToSection, Fields.names_put,
      List.map_cons]
    split
    · next hmem => rw [eraseDups_append_cons_of_mem _ hmem]
    · rw [List.append_assoc, List.singleton_append]

/-- A section keeps the entries that it has, and its category's entries come behind them in
order. -/
theorem get?_foldl_addToSection (category : String) :
    (Fields.get? (items.foldl addToSection found) category).getD [] =
      (Fields.get? found category).getD [] ++ items.filter fun item =>
      sectionOf item.2 = category := by
  induction items generalizing found with
  | nil => simp
  | cons item items ih =>
    rw [List.foldl_cons, ih, addToSection, Fields.get?_put]
    by_cases hcategory : sectionOf item.2 = category
    · simp [hcategory]
    · simp [hcategory]

/-- The categories of the documented entries, in the order in which they first occur. -/
def categories (table : Table) : List String :=
  (table.exposed.map fun field => sectionOf field.2).eraseDups

theorem categories_eq (table : Table) :
    categories table = ((documented table).map fun item => sectionOf item.2).eraseDups := by
  rw [documented, List.map_map]
  rfl

/-- **The sections are the groups of the documented entries.** -/
theorem sections_eq (table : Table) : sections table =
    (categories table).map fun category =>
      (category, (documented table).filter fun item => sectionOf item.2 = category) := by
  have hnames : Fields.names (sections table) = categories table :=
    (@names_foldl_addToSection [] (documented table) List.nodup_nil).trans
      (categories_eq table).symm
  refine Fields.ext_getD [] (hnames ▸ nodup_eraseDups _) ?_ fun category => ?_
  · rw [hnames, Fields.names, List.map_map]
    exact (List.map_id _).symm
  · rw [sections, get?_foldl_addToSection, Fields.get?_nil, Option.getD_none, List.nil_append,
      Fields.get?_tabulate]
    split
    · rfl
    · next hcategory =>
      -- a category that has no section has no entries
      refine List.filter_eq_nil_iff.2 fun item hitem => ?_
      rw [categories_eq, List.mem_eraseDups] at hcategory
      simpa using fun h : sectionOf item.2 = category => hcategory (h ▸ List.mem_map_of_mem hitem)

/-- **The sections have the documented entries**, each once. -/
theorem sections_perm (table : Table) :
    ((sections table).flatMap Prod.snd).Perm (documented table) := by
  rw [sections_eq, List.flatMap_map]
  refine flatMap_filter_perm (fun item : String × Entry => sectionOf item.2) (nodup_eraseDups _)
    fun item hitem => ?_
  rw [← categories, categories_eq, List.mem_eraseDups]
  exact List.mem_map_of_mem hitem

end Reference

end BuilderApi
