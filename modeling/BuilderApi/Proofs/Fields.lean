import BuilderApi.Fields
import Mathlib.Data.List.Nodup

/-!
# Fields as ordered maps

Fields without a repeated name are a finite map and an order of its names, and they are determined
by the two (`BuilderApi.Fields.ext`). Putting a list of pairs does one thing to each:

* the names are those that were there, and behind them the new ones in the order in which they first
  occur (`BuilderApi.Fields.names_putAll`);
* the value under a name is the last one that the list has for it (`BuilderApi.Fields.get?_putAll`).

So position is decided by the first occurrence of a name and the value by the last, and fields that
were normalized before add nothing new (`BuilderApi.Fields.putAll_ofList`).
-/

namespace BuilderApi

/-! ### Lists without their repetitions -/

section EraseDups

variable {β : Type} [BEq β] [LawfulBEq β]

theorem nodup_eraseDups (as : List β) : as.eraseDups.Nodup := by
  induction hn : as.length using Nat.strongRecOn generalizing as with
  | _ n ih =>
  cases as with
  | nil => simp
  | cons a rest =>
    rw [List.eraseDups_cons, List.nodup_cons]
    have hlt : (rest.filter fun b => !b == a).length < n := by
      have := List.length_filter_le (fun b => !b == a) rest
      rw [← hn, List.length_cons]
      omega
    exact ⟨by simp, ih _ hlt _ rfl⟩

theorem eraseDups_of_nodup {as : List β} (h : as.Nodup) : as.eraseDups = as := by
  induction as with
  | nil => simp
  | cons a rest ih =>
    rw [List.nodup_cons] at h
    rw [List.eraseDups_cons, List.filter_eq_self.2, ih h.2]
    intro b hb
    simpa using fun hba : b = a => h.1 (hba ▸ hb)

/-- Erasing duplicates commutes with filtering. -/
theorem filter_eraseDups (p : β → Bool) (as : List β) :
    as.eraseDups.filter p = (as.filter p).eraseDups := by
  induction hn : as.length using Nat.strongRecOn generalizing as with
  | _ n ih =>
  cases as with
  | nil => simp
  | cons a rest =>
    have hlt : (rest.filter fun b => !b == a).length < n := by
      have := List.length_filter_le (fun b => !b == a) rest
      rw [← hn, List.length_cons]
      omega
    rw [List.eraseDups_cons, List.filter_cons, List.filter_cons, ih _ hlt _ rfl, List.filter_filter]
    split
    · rw [List.eraseDups_cons, List.filter_filter]
      simp only [Bool.and_comm]
    · rename_i hpa
      congr 1
      refine List.filter_congr fun b _ => ?_
      by_cases hba : b = a
      · simp [hba, hpa]
      · simp [hba]

/-- Duplicates in the second part need not be erased first. -/
theorem eraseDups_append_eraseDups (as bs : List β) :
    (as ++ bs.eraseDups).eraseDups = (as ++ bs).eraseDups := by
  simp only [List.eraseDups_append, List.removeAll]
  rw [← filter_eraseDups, ← filter_eraseDups, eraseDups_of_nodup (nodup_eraseDups bs)]

/-- An element that is already there adds nothing behind it. -/
theorem eraseDups_append_cons_of_mem {as : List β} {b : β} (bs : List β) (h : b ∈ as) :
    (as ++ b :: bs).eraseDups = (as ++ bs).eraseDups := by
  simp [List.eraseDups_append, List.removeAll, h]

end EraseDups

namespace Fields

variable {α : Type} {fields other : Fields α} {name : String} {value : α}
  {pairs : List (String × α)}

/-! ### Lookups and names -/

/-- The fields in front hide those behind. -/
theorem get?_append (fields other : Fields α) (name : String) :
    get? (fields ++ other) name = (get? fields name).or (get? other name) := by
  induction fields with
  | nil => rfl
  | cons field rest ih =>
    obtain ⟨k, v⟩ := field
    by_cases hk : k = name <;> simp [get?, hk, ih]

/-- Nothing is found exactly under what is no name. -/
theorem get?_eq_none_iff : get? fields name = none ↔ name ∉ names fields := by
  induction fields with
  | nil => simp [names]
  | cons field rest ih =>
    obtain ⟨k, v⟩ := field
    by_cases hk : k = name
    · simp [get?, names, hk]
    · rw [get?, if_neg hk, ih]
      simp [names, Ne.symm hk]

/-- What is found is a field. -/
theorem mem_of_get? {value : α} (h : get? fields name = some value) : (name, value) ∈ fields := by
  induction fields with
  | nil => simp at h
  | cons field rest ih =>
    obtain ⟨k, v⟩ := field
    by_cases hk : k = name
    · rw [get?, if_pos hk, Option.some.injEq] at h
      simp [hk, h]
    · rw [get?, if_neg hk] at h
      exact List.mem_cons_of_mem _ (ih h)

/-- Each field is found if no name is repeated. -/
theorem get?_of_mem (h : (names fields).Nodup) {value : α} (hmem : (name, value) ∈ fields) :
    get? fields name = some value := by
  induction fields with
  | nil => cases hmem
  | cons field rest ih =>
    obtain ⟨k, v⟩ := field
    obtain ⟨hk, hrest⟩ := List.nodup_cons.1 h
    rcases List.mem_cons.1 hmem with heq | hmem
    · cases heq
      rw [get?, if_pos rfl]
    · have hname : k ≠ name := fun heq => hk (List.mem_map.2 ⟨_, hmem, heq.symm⟩)
      rw [get?, if_neg hname, ih hrest hmem]

/-- Without a repeated name it does not matter from which end a name is looked up. -/
theorem get?_reverse (h : (names fields).Nodup) (name : String) :
    get? fields.reverse name = get? fields name := by
  induction fields with
  | nil => rfl
  | cons field rest ih =>
    obtain ⟨k, v⟩ := field
    obtain ⟨hk, hrest⟩ := List.nodup_cons.1 h
    rw [List.reverse_cons, get?_append, ih hrest]
    by_cases hname : k = name
    · rw [get?_eq_none_iff.2 (hname ▸ hk)]
      simp [get?, hname]
    · simp [get?, hname]

/-- Seen from the end, what is behind comes first. -/
theorem get?_reverse_append (fields other : Fields α) (name : String) :
    get? (fields ++ other).reverse name =
      (get? other.reverse name).or (get? fields.reverse name) := by
  rw [List.reverse_append, get?_append]

theorem get?_reverse_eq_none_iff : get? fields.reverse name = none ↔ name ∉ names fields := by
  rw [get?_eq_none_iff, names, List.map_reverse, List.mem_reverse]
  rfl

/-- Each name has a last value. -/
theorem exists_get?_reverse (h : name ∈ names fields) :
    ∃ value, get? fields.reverse name = some value :=
  Option.ne_none_iff_exists'.1 fun hnone => get?_reverse_eq_none_iff.1 hnone h

/-- Seen from the end, a name is found behind fields of other names and in front of anything. -/
theorem get?_reverse_of_mem {before after between : Fields α} {value : α}
    (hnodup : (names (before ++ after)).Nodup) (h : (name, value) ∈ before ++ after)
    (hbetween : name ∉ names between) (front : Fields α) :
    get? (front ++ before ++ between ++ after).reverse name = some value := by
  have hsome : (get? after.reverse name).or (get? before.reverse name) = some value := by
    rw [← get?_reverse_append, get?_reverse hnodup, get?_of_mem hnodup h]
  rw [get?_reverse_append, get?_reverse_append, get?_reverse_append,
    get?_reverse_eq_none_iff.2 hbetween,
    Option.none_or, ← Option.or_assoc, hsome, Option.some_or]

/-- Filtering by name hides the names that are not kept. -/
theorem get?_filter (keep : String → Bool) (fields : Fields α) (name : String) :
    get? (fields.filter fun field => keep field.1) name = if keep name then get? fields name
    else none := by
  induction fields with
  | nil => simp [get?]
  | cons field rest ih =>
    obtain ⟨k, v⟩ := field
    cases hk : keep k <;> by_cases hname : k = name <;> simp_all [get?]

/-- **Fields are determined** by the order of their names and their values. -/
theorem ext (hfields : (names fields).Nodup) (hnames : names fields = names other)
    (hget : ∀ name, get? fields name = get? other name) : fields = other := by
  induction fields generalizing other with
  | nil => cases other with
    | nil => rfl
    | cons => simp [names] at hnames
  | cons field rest ih =>
    obtain ⟨k, v⟩ := field
    cases other with
    | nil => simp [names] at hnames
    | cons field' rest' =>
      obtain ⟨k', v'⟩ := field'
      obtain ⟨rfl, hrest⟩ : k = k' ∧ names rest = names rest' := by simpa [names] using hnames
      obtain ⟨hk, hnodup⟩ := List.nodup_cons.1 hfields
      obtain rfl : v = v' := by simpa [get?] using hget k
      rw [ih hnodup hrest]
      intro name
      by_cases hname : k = name
      · subst hname
        rw [get?_eq_none_iff.2 hk, get?_eq_none_iff.2 (hrest ▸ hk)]
      · simpa [get?, hname] using hget name

/-! ### Putting a list of pairs -/

theorem putAll_cons (fields : Fields α) (pair : String × α) (pairs : List (String × α)) :
    putAll fields (pair :: pairs) = putAll (put fields pair.1 pair.2) pairs := rfl

/-- What is among fields behind a put was there, or was put. -/
theorem mem_put {field : String × α} (h : field ∈ put fields name value) :
    field ∈ fields ∨ field = (name, value) := by
  induction fields with
  | nil => exact .inr (List.mem_singleton.1 h)
  | cons first rest ih =>
    obtain ⟨k, v⟩ := first
    by_cases hk : k = name
    · rw [put, if_pos hk, List.mem_cons] at h
      exact h.symm.imp_left (List.mem_cons_of_mem _)
    · rw [put, if_neg hk, List.mem_cons] at h
      rcases h with rfl | h
      · exact .inl List.mem_cons_self
      · exact (ih h).imp_left (List.mem_cons_of_mem _)

/-- What stands there after putting was there before or was put. -/
theorem mem_putAll {field : String × α} (h : field ∈ putAll fields pairs) :
    field ∈ fields ∨ field ∈ pairs := by
  induction pairs generalizing fields with
  | nil => exact .inl h
  | cons pair pairs ih =>
    rcases ih h with hmem | hmem
    · rcases mem_put hmem with hmem | rfl
      · exact .inl hmem
      · exact .inr List.mem_cons_self
    · exact .inr (List.mem_cons_of_mem _ hmem)

/-- Putting repeats no name. -/
theorem nodup_names_put (h : (names fields).Nodup) (name : String) (value : α) :
    (names (put fields name value)).Nodup := by
  rw [names_put]
  split
  · exact h
  · rename_i hmem
    exact List.nodup_append.2 ⟨h, by simp, by rintro a ha b hb rfl; simp_all⟩

/-- A new name goes to the end. -/
theorem put_of_not_mem (h : name ∉ names fields) (value : α) :
    put fields name value = fields ++ [(name, value)] := by
  induction fields with
  | nil => rfl
  | cons field rest ih =>
    obtain ⟨k, v⟩ := field
    simp only [names, List.map_cons, List.mem_cons, not_or] at h
    rw [put, if_neg (Ne.symm h.1), ih h.2, List.cons_append]

/-- A put changes nothing under other names. -/
theorem filter_put (fields : Fields α) (name : String) (value : α) :
    (put fields name value).filter (fun field => field.1 ≠ name) = fields.filter fun field =>
    field.1 ≠ name := by
  induction fields with
  | nil => simp [put]
  | cons field rest ih =>
    obtain ⟨k, v⟩ := field
    by_cases hk : k = name
    · simp [put, hk]
    · rw [put, if_neg hk, List.filter_cons, List.filter_cons, ih]

/-- **What was there keeps its place, and new names go behind it** in the order of their first
occurrence. -/
theorem names_putAll_eq_append (fields : Fields α) (pairs : List (String × α)) :
    names (putAll fields pairs) =
      names fields ++ ((names pairs).removeAll (names fields)).eraseDups := by
  induction pairs generalizing fields with
  | nil => simp [putAll, names, List.removeAll]
  | cons pair pairs ih =>
    change names (putAll (put fields pair.1 pair.2) pairs) =
      names fields ++ ((pair.1 :: names pairs).removeAll (names fields)).eraseDups
    rw [ih, names_put]
    split
    · next hmem => simp [List.removeAll, hmem]
    · next hmem =>
      -- the new name is taken out of what follows by one side before and by the other side after it
      -- is placed
      have hrest : (names pairs).removeAll (names fields ++ [pair.1]) =
          ((names pairs).removeAll (names fields)).filter fun name => !name == pair.1 := by
        rw [List.removeAll, List.removeAll, List.filter_filter]
        refine List.filter_congr fun name _ => ?_
        by_cases hname : name = pair.1 <;> simp [hname]
      have hfirst : (pair.1 :: names pairs).removeAll (names fields) =
          pair.1 :: (names pairs).removeAll (names fields) := by
        simp [List.removeAll, hmem]
      rw [hrest, hfirst, List.eraseDups_cons, List.append_assoc, List.singleton_append]

/-- **Names keep the place of their first occurrence.** -/
theorem names_putAll (h : (names fields).Nodup) (pairs : List (String × α)) :
    names (putAll fields pairs) = (names fields ++ names pairs).eraseDups := by
  rw [names_putAll_eq_append, List.eraseDups_append, eraseDups_of_nodup h]

theorem nodup_names_putAll (h : (names fields).Nodup) (pairs : List (String × α)) :
    (names (putAll fields pairs)).Nodup :=
  names_putAll h pairs ▸ nodup_eraseDups _

/-- **Values are those of the last occurrence.** -/
theorem get?_putAll (fields : Fields α) (pairs : List (String × α)) (name : String) :
    get? (putAll fields pairs) name = (get? pairs.reverse name).or (get? fields name) := by
  induction pairs generalizing fields with
  | nil => rfl
  | cons pair pairs ih =>
    obtain ⟨k, v⟩ := pair
    rw [putAll_cons, ih, get?_put, List.reverse_cons, get?_append, Option.or_assoc]
    by_cases hk : k = name <;> simp [get?, hk]

/-- In a list of pairs each name counts once, where it stands first. -/
theorem names_ofList (pairs : List (String × α)) : names (ofList pairs) = (names pairs).eraseDups :=
  @names_putAll _ [] List.nodup_nil pairs

theorem nodup_names_ofList (pairs : List (String × α)) : (names (ofList pairs)).Nodup :=
  names_ofList pairs ▸ nodup_eraseDups _

/-- In a list of pairs the last one of a name counts. -/
theorem get?_ofList (pairs : List (String × α)) (name : String) :
    get? (ofList pairs) name = get? pairs.reverse name := by
  rw [ofList, get?_putAll, get?_nil, Option.or_none]

/-- Fields without a repeated name are already in order. -/
theorem ofList_eq_self (h : (names fields).Nodup) : ofList fields = fields := by
  refine ext (nodup_names_ofList fields) ?_ fun name => ?_
  · rw [names_ofList, eraseDups_of_nodup h]
  · rw [get?_ofList, get?_reverse h]

/-- **Normalizing a list first changes nothing.** -/
theorem putAll_ofList (h : (names fields).Nodup) (pairs : List (String × α)) :
    putAll fields (ofList pairs) = putAll fields pairs := by
  refine ext (nodup_names_putAll h _) ?_ fun name => ?_
  · rw [names_putAll h, names_putAll h, names_ofList, eraseDups_append_eraseDups]
  · rw [get?_putAll, get?_putAll, get?_reverse (nodup_names_ofList pairs), get?_ofList]

/-- The first of some fields takes the pairs of its own name, and leaves the others to the fields
behind it. -/
theorem putAll_cons_left (value : α) (rest : Fields α) (pairs : List (String × α)) :
    putAll ((name, value) :: rest) pairs =
      (name, (get? pairs.reverse name).getD value) :: putAll rest (pairs.filter fun pair =>
        pair.1 ≠ name) := by
  induction pairs generalizing value rest with
  | nil => rfl
  | cons pair pairs ih =>
    obtain ⟨k, v⟩ := pair
    rw [putAll_cons, put, List.reverse_cons, get?_append]
    by_cases hk : name = k
    · subst hk
      rw [if_pos rfl, ih]
      cases get? pairs.reverse name <;> simp [get?]
    · rw [if_neg hk, ih]
      simp [get?, Ne.symm hk, putAll_cons]

/-- **Pairs that change no value change nothing**: they bring no new name either. -/
theorem putAll_eq_self (h : ∀ name, get? (putAll fields pairs) name = get? fields name) :
    putAll fields pairs = fields := by
  induction fields generalizing pairs with
  | nil =>
    cases hall : putAll [] pairs with
    | nil => rfl
    | cons field rest => simpa [hall, get?] using h field.1
  | cons field rest ih =>
    obtain ⟨k, v⟩ := field
    rw [putAll_cons_left] at h ⊢
    have hfirst : (get? pairs.reverse k).getD v = v := by simpa [get?] using h k
    rw [hfirst, ih]
    intro name
    by_cases hname : k = name
    · subst hname
      have hnone : get? (pairs.filter fun pair => pair.1 ≠ k).reverse k = none :=
        get?_reverse_eq_none_iff.2 (by simp [names])
      rw [get?_putAll, hnone, Option.none_or]
    · simpa [get?, hname] using h name

theorem putAll_append (fields : Fields α) (pairs more : List (String × α)) :
    putAll fields (pairs ++ more) = putAll (putAll fields pairs) more :=
  List.foldl_append

end Fields

end BuilderApi
