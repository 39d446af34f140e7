import BuilderApi.Files.Tree
import BuilderApi.Proofs.Results

/-!
# Places of a file system

A file system is seen here by its places: at a place there is nothing, a directory, or a file with
its bytes (`BuilderApi.FileSystem.kind?`). Two trees with the same at every place differ at most in
the order in which directories list their entries. A new file or an empty directory changes the
place where it is put and no other (`BuilderApi.FileTree.kind?_put`).

To reach a place, every name on the way to it has to be short enough and to be that of a directory
(`BuilderApi.FileSystem.reach`).
-/

namespace BuilderApi

/-- What can be at a place. -/
inductive Kind where
  /-- A directory. -/
  | dir
  /-- A file. -/
  | file (content : ByteArray)

instance (found : Option Kind) : Decidable (found = some .dir) :=
  match found with
  | none => isFalse nofun
  | some .dir => isTrue rfl
  | some (.file _) => isFalse nofun

namespace FileTree

/-- What a tree is at its top. -/
def kind : FileTree → Kind
  | .file content => .file content
  | .dir _ => .dir

/-- What is below a list of names. -/
def kind? (tree : FileTree) (place : List String) : Option Kind := (tree.at? place).map kind

variable {tree new : FileTree}

/-- A path is followed in two parts. -/
theorem at?_append (tree : FileTree) (before after : List String) :
    tree.at? (before ++ after) = (tree.at? before).bind (·.at? after) := by
  induction before generalizing tree with
  | nil => rfl
  | cons name before ih =>
    cases tree with
    | file content => rfl
    | dir entries =>
      rw [List.cons_append, at?, at?]
      cases Fields.get? entries name with
      | none => rfl
      | some child => exact ih child

theorem kind?_nil (tree : FileTree) : tree.kind? [] = some tree.kind := rfl

/-- Below a directory the first name is looked for among its entries. -/
theorem kind?_cons (entries : List (String × FileTree)) (name : String) (rest : List String) :
    (dir entries).kind? (name :: rest) = (Fields.get? entries name).bind (·.kind? rest) := by
  rw [kind?, at?]
  cases Fields.get? entries name <;> rfl

theorem exists_entries (h : tree.kind = .dir) : ∃ entries, tree = .dir entries := by
  cases tree with
  | file content => cases h
  | dir entries => exact ⟨entries, rfl⟩

/-- Only a directory has something below it. -/
theorem kind?_of_append {place : List String} {name : String}
    (h : tree.kind? (place ++ [name]) ≠ none) :
    tree.kind? place = some .dir := by
  rw [kind?, at?_append] at h
  rw [kind?]
  cases htree : tree.at? place with
  | none => simp [htree] at h
  | some below =>
    cases below with
    | file content => simp [htree, at?] at h
    | dir entries => rfl

/-- A tree without entries of its own. -/
def IsBare (tree : FileTree) : Prop := ∀ name rest, tree.kind? (name :: rest) = none

theorem isBare_file (content : ByteArray) : (file content).IsBare := fun _ _ => rfl

theorem isBare_dir : (dir []).IsBare := fun _ _ => rfl

theorem isBare_of_kind (h : tree.kind ≠ .dir) : tree.IsBare := by
  cases tree with
  | file content => exact isBare_file content
  | dir entries => exact absurd rfl h

/-- **What is put at a place is there, and every other place is as it was**, if the new tree has no
entries and takes the place of no directory. -/
theorem kind?_put (hnew : new.IsBare) {above : List String} {name : String}
    (habove : tree.kind? above = some .dir) (hold : tree.kind? (above ++ [name]) ≠ some .dir)
    (place : List String) :
    (tree.put new (above ++ [name])).kind? place =
      if place = above ++ [name] then some new.kind else tree.kind? place := by
  induction above generalizing tree place with
  | nil =>
    obtain ⟨entries, rfl⟩ := exists_entries (Option.some.inj habove)
    rw [List.nil_append, kind?_cons] at hold
    rw [List.nil_append, put, put]
    rcases place with _ | ⟨other, rest⟩
    · rw [kind?_nil, kind?_nil, if_neg (List.cons_ne_nil _ _).symm]
      rfl
    · rw [kind?_cons, kind?_cons, Fields.get?_put]
      by_cases hname : name = other
      · subst hname
        rw [if_pos rfl, Option.bind_some]
        rcases rest with _ | ⟨below, rest⟩
        · rw [if_pos rfl, kind?_nil]
        · -- nothing was below the place, and nothing is
          rw [if_neg (by simp), hnew]
          cases hentry : Fields.get? entries name with
          | none => rfl
          | some child =>
            rw [hentry, Option.bind_some, kind?_nil] at hold
            exact (isBare_of_kind (fun h => hold (congrArg some h)) below rest).symm
      · rw [if_neg hname, if_neg (by simp [Ne.symm hname])]
  | cons first above ih =>
    obtain ⟨entries, rfl⟩ : ∃ entries, tree = .dir entries := by
      cases tree with
      | file content => cases habove
      | dir entries => exact ⟨entries, rfl⟩
    rw [kind?_cons] at habove
    rw [List.cons_append, kind?_cons] at hold
    rw [List.cons_append, put]
    obtain ⟨child, hchild, habove⟩ := Option.bind_eq_some_iff.1 habove
    rw [hchild, Option.bind_some] at hold
    rw [hchild, Option.getD_some]
    rcases place with _ | ⟨other, rest⟩
    · rw [kind?_nil, kind?_nil, if_neg (List.cons_ne_nil _ _).symm]
      rfl
    · rw [kind?_cons, kind?_cons, Fields.get?_put]
      by_cases hname : first = other
      · subst hname
        rw [if_pos rfl, hchild, Option.bind_some, Option.bind_some, ih habove hold]
        simp
      · rw [if_neg hname, if_neg (by simp [Ne.symm hname])]

end FileTree

namespace FileSystem

/-- What is at a place. -/
def kind? (fs : FileSystem) (place : List String) : Option Kind := fs.tree.kind? place

variable {fs : FileSystem} {place : List String} {name : String}

/-- Where something stands, there is a directory above it. -/
theorem kind?_above (h : fs.kind? (place ++ [name]) ≠ none) : fs.kind? place = some .dir :=
  FileTree.kind?_of_append h

/-- The check for a directory sees the kind of the place. -/
theorem isDirAt_iff : fs.isDirAt place = true ↔ fs.kind? place = some .dir := by
  unfold isDirAt kind? FileTree.kind?
  cases fs.tree.at? place with
  | none => simp
  | some tree => cases tree <;> simp [FileTree.kind]

/-- A name that no directory can have. -/
def IsLong (name : String) : Prop := name.utf8ByteSize > 255

instance (name : String) : Decidable (IsLong name) := inferInstanceAs (Decidable (_ > _))

theorem checkName_of_isLong (h : IsLong name) : checkName name = .error .nameTooLong := if_pos h

theorem checkName_of_not_isLong (h : ¬IsLong name) : checkName name = .ok () := if_neg h

/-- A name that is that of an entry. -/
def IsProper (name : String) : Prop := name ≠ "." ∧ name ≠ ".."

/-! ### Following names -/

/-- Follows names to a place that has to be a directory. -/
def reach (fs : FileSystem) (place : List String) (names : List String) :
    Except FileError (List String) := do
  let place ← fs.follow place names
  if fs.isDirAt place then return place else .error .notDirectory

/-- What following one more name from a directory comes to. -/
def enter (fs : FileSystem) (place : List String) (name : String) :
    Except FileError (List String) :=
  if IsLong name then .error .nameTooLong
  else
    match fs.kind? (place ++ [name]) with
    | none => .error .notFound
    | some (.file _) => .error .notDirectory
    | some .dir => .ok (place ++ [name])

/-- Names are followed in two parts. -/
theorem follow_append (fs : FileSystem) (place before after : List String) :
    fs.follow place (before ++ after) = fs.follow place before >>= fun place =>
    fs.follow place after := by
  induction before generalizing place with
  | nil => rfl
  | cons name before ih =>
    rw [List.cons_append, follow, follow]
    cases fs.step place name with
    | error e => rfl
    | ok next => exact ih next

theorem exists_tree (h : fs.kind? place ≠ none) : ∃ tree, fs.tree.at? place = some tree := by
  rwa [kind?, FileTree.kind?, Ne, Option.map_eq_none_iff, ← Ne, Option.ne_none_iff_exists'] at h

/-- A directory has an entry exactly if something stands below it. -/
theorem has_iff {entries : List (String × FileTree)} (h : fs.tree.at? place = some (.dir entries)) :
    Fields.has entries name = true ↔ fs.kind? (place ++ [name]) ≠ none := by
  rw [kind?, FileTree.kind?, FileTree.at?_append, h, Option.bind_some, FileTree.at?, Fields.has]
  cases Fields.get? entries name <;> simp [FileTree.at?]

/-- A step goes to a name that is there. -/
theorem step_eq_ok (hname : IsProper name) {next : List String}
    (h : fs.step place name = .ok next) :
    next = place ++ [name] ∧ fs.kind? next ≠ none := by
  unfold step at h
  split at h
  · cases h
  · cases h
  · next entries hentries =>
    rw [if_neg hname.1, if_neg hname.2] at h
    obtain ⟨-, -, h⟩ := exists_of_bind_eq_ok h
    split at h
    · next hhas =>
      cases h
      exact ⟨rfl, (has_iff hentries).1 hhas⟩
    · cases h

/-- Proper names lead to the place that they name, and something stands there. -/
theorem follow_eq_ok {names : List String} (hplace : fs.kind? place ≠ none)
    (hnames : ∀ name ∈ names, IsProper name) {last : List String}
    (h : fs.follow place names = .ok last) : last = place ++ names ∧ fs.kind? last ≠ none := by
  induction names generalizing place with
  | nil =>
    cases h
    exact ⟨(List.append_nil _).symm, hplace⟩
  | cons name names ih =>
    rw [List.forall_mem_cons] at hnames
    obtain ⟨next, hstep, hrest⟩ := exists_of_bind_eq_ok h
    obtain ⟨rfl, hnext⟩ := step_eq_ok hnames.1 hstep
    obtain ⟨rfl, hlast⟩ := ih hnext hnames.2 hrest
    exact ⟨by simp, hlast⟩

/-- A step from a directory. -/
theorem step_dir (hplace : fs.kind? place = some .dir) (hname : IsProper name) :
    fs.step place name =
      if IsLong name then .error .nameTooLong
      else if fs.kind? (place ++ [name]) = none then .error .notFound
      else .ok (place ++ [name]) := by
  obtain ⟨tree, htree⟩ := exists_tree (by rw [hplace]; exact Option.some_ne_none _)
  rw [kind?, FileTree.kind?, htree] at hplace
  obtain ⟨entries, rfl⟩ := FileTree.exists_entries (Option.some.inj hplace)
  have hhas := @has_iff fs place name entries htree
  simp only [step, htree, if_neg hname.1, if_neg hname.2]
  by_cases hlong : IsLong name
  · rw [checkName_of_isLong hlong, if_pos hlong]
    rfl
  · rw [checkName_of_not_isLong hlong, if_neg hlong]
    by_cases hkind : fs.kind? (place ++ [name]) = none
    · rw [if_pos hkind, if_neg (by rw [hhas]; exact not_not.2 hkind)]
      rfl
    · rw [if_neg hkind, if_pos (hhas.2 hkind)]
      rfl

/-- A file cannot be entered. -/
theorem step_file {content : ByteArray} (hplace : fs.kind? place = some (.file content)) :
    fs.step place name = .error .notDirectory := by
  obtain ⟨tree, htree⟩ := exists_tree (by rw [hplace]; exact Option.some_ne_none _)
  rw [kind?, FileTree.kind?, htree] at hplace
  cases tree with
  | file content => simp only [step, htree]
  | dir entries => cases hplace

theorem follow_singleton (fs : FileSystem) (place : List String) (name : String) :
    fs.follow place [name] = fs.step place name := by
  rw [follow]
  cases fs.step place name <;> rfl

/-- Without names one stays in the directory. -/
theorem reach_nil (h : fs.kind? place = some .dir) : fs.reach place [] = .ok place :=
  if_pos (isDirAt_iff.2 h)

/-- One more name is followed from the directory that the names before it lead to. -/
theorem reach_concat {names : List String} (hplace : fs.kind? place = some .dir)
    (hnames : ∀ name ∈ names, IsProper name) (hname : IsProper name) :
    fs.reach place (names ++ [name]) = fs.reach place names >>= fun place =>
    fs.enter place name := by
  unfold reach
  rw [follow_append]
  cases hfollow : fs.follow place names with
  | error e => rfl
  | ok last =>
    obtain ⟨-, hlast⟩ := follow_eq_ok (by rw [hplace]; exact Option.some_ne_none _) hnames hfollow
    change (fs.follow last [name] >>= fun place =>
      if fs.isDirAt place then .ok place else .error .notDirectory) =
        ((if fs.isDirAt last then .ok last else .error .notDirectory) >>= fun place =>
        fs.enter place name)
    rw [follow_singleton]
    cases hkind : fs.kind? last with
    | none => exact absurd hkind hlast
    | some kind =>
      cases kind with
      | file content =>
        rw [step_file hkind, if_neg (by rw [isDirAt_iff, hkind]; simp)]
        rfl
      | dir =>
        rw [step_dir hkind hname, if_pos (isDirAt_iff.2 hkind)]
        change _ = fs.enter last name
        unfold enter
        by_cases hlong : IsLong name
        · rw [if_pos hlong, if_pos hlong]
          rfl
        · rw [if_neg hlong, if_neg hlong]
          cases hnext : fs.kind? (last ++ [name]) with
          | none => rfl
          | some kind =>
            rw [if_neg (Option.some_ne_none _)]
            cases kind with
            | file content => exact if_neg (by rw [isDirAt_iff, hnext]; simp)
            | dir => exact if_pos (isDirAt_iff.2 hnext)

end FileSystem

end BuilderApi
