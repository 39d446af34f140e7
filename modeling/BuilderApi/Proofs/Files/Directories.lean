import BuilderApi.Files.Disk
import BuilderApi.Proofs.Files.Parents
import BuilderApi.Proofs.Files.Places

/-!
# Making a directory and those above it

A directory is made bottom-up: the program tries the whole path first, and climbs to the parent as
long as a name on the way is missing. What comes of it is best said top-down
(`BuilderApi.FileSystem.makeDirs_eq`): the names are followed from the start up to the first one
that is too long or is that of a file, and everything in front of that one is a directory
afterwards. Without such a barrier the attempt succeeds. So the outcome depends on a tree only by
where its files are, and not by which of its directories are there already.
-/

namespace BuilderApi

namespace FileSystem

variable {fs fs' : FileSystem} {base place above names before : List String} {name last : String}
  {e : FileError}

/-! ### Barriers -/

/-- What keeps a name from being passed: it is too long, or that of a file. -/
def barrier (fs : FileSystem) (above : List String) (name : String) : Option FileError :=
  if IsLong name then some .nameTooLong
  else
    match fs.kind? (above ++ [name]) with
    | some (.file _) => some .notDirectory
    | _ => none

/-- What keeps a name from being that of a directory, which is the same in other words. -/
def barrierEnd (fs : FileSystem) (above : List String) (name : String) : Option FileError :=
  match fs.kind? (above ++ [name]) with
  | none => if IsLong name then some .nameTooLong else none
  | some .dir => if IsLong name then some .alreadyExists else none
  | some (.file _) => some .alreadyExists

/-- The first barrier among the names behind a place. -/
def blocked (fs : FileSystem) (base : List String) : List String → Option FileError
  | [] => none
  | name :: rest => (fs.barrier base name).or (fs.blocked (base ++ [name]) rest)

/-- Why a directory cannot be made behind a place. -/
def refusal (fs : FileSystem) (base names : List String) : Option FileError :=
  match names.getLast? with
  | none => none
  | some last => (fs.blocked base names.dropLast).or (fs.barrierEnd (base ++ names.dropLast) last)

/-- A place on the way to another one, in front of every barrier. -/
def Opened (fs : FileSystem) (base names place : List String) : Prop :=
  ∃ front, front ≠ [] ∧ front <+: names ∧ place = base ++ front ∧ fs.blocked base front = none

/-- What blocks a longer way is what blocks its front, or else what blocks the rest from there. -/
theorem blocked_append (fs : FileSystem) (base before after : List String) :
    fs.blocked base (before ++ after) =
      (fs.blocked base before).or (fs.blocked (base ++ before) after) := by
  induction before generalizing base with
  | nil => rw [List.nil_append, blocked, Option.none_or, List.append_nil]
  | cons name before ih =>
    rw [List.cons_append, blocked, blocked, ih, Option.or_assoc, List.append_assoc,
      List.singleton_append]

theorem blocked_concat (fs : FileSystem) (base before : List String) (name : String) :
    fs.blocked base (before ++ [name]) =
      (fs.blocked base before).or (fs.barrier (base ++ before) name) := by
  rw [blocked_append, blocked, blocked, Option.or_none]

/-- The last step of a way is refused for reasons of its own. -/
theorem refusal_concat (fs : FileSystem) (base before : List String) (last : String) :
    fs.refusal base (before ++ [last]) =
      (fs.blocked base before).or (fs.barrierEnd (base ++ before) last) := by
  simp [refusal]

/-- The two ways to name a barrier go together. -/
theorem barrier_eq_none_iff : fs.barrier above name = none ↔ fs.barrierEnd above name = none := by
  unfold barrier barrierEnd
  by_cases hlong : IsLong name <;> rcases fs.kind? (above ++ [name]) with _ | _ | _ <;> simp [hlong]

/-- A way is refused exactly if something blocks it; only the reason may be another one. -/
theorem refusal_eq_none_iff : fs.refusal base names = none ↔ fs.blocked base names = none := by
  rcases List.eq_nil_or_concat' names with rfl | ⟨before, last, rfl⟩
  · exact Iff.rfl
  · rw [refusal_concat, blocked_concat, Option.or_eq_none_iff, Option.or_eq_none_iff,
      barrier_eq_none_iff]

/-- Where nothing is, the two ways are one. -/
theorem refusal_eq_blocked (h : fs.kind? (base ++ names) = none) :
    fs.refusal base names = fs.blocked base names := by
  rcases List.eq_nil_or_concat' names with rfl | ⟨before, last, rfl⟩
  · rfl
  · rw [← List.append_assoc] at h
    rw [refusal_concat, blocked_concat, barrier, barrierEnd, h]

/-- Where no barrier stands, the name is not too long, and there is a directory or nothing. -/
theorem barrier_eq_none (h : fs.barrier above name = none) :
    ¬IsLong name ∧
      (fs.kind? (above ++ [name]) = none ∨ fs.kind? (above ++ [name]) = some .dir) := by
  unfold barrier at h
  split at h
  · cases h
  · next hlong =>
    refine ⟨hlong, ?_⟩
    split at h
    · cases h
    · next hfile =>
      rcases hkind : fs.kind? (above ++ [name]) with _ | _ | content
      · exact .inl rfl
      · exact .inr rfl
      · exact absurd hkind (hfile content)

/-- Nothing is in the way exactly if no name is too long or that of a file. -/
theorem blocked_eq_none_iff : fs.blocked base names = none ↔
    ∀ before name, before ++ [name] <+: names → fs.barrier (base ++ before) name = none := by
  induction names using List.reverseRecOn with
  | nil => simp [blocked]
  | append_singleton names last ih =>
    rw [blocked_concat, Option.or_eq_none_iff, ih]
    constructor
    · rintro ⟨hnames, hlast⟩ before name hbegin
      rcases List.prefix_concat_iff.1 hbegin with heq | hbegin
      · obtain ⟨hbefore, hname⟩ := List.append_inj' heq rfl
        rwa [hbefore, List.singleton_inj.1 hname]
      · exact hnames before name hbegin
    · exact fun h =>
        ⟨fun before name hbegin => h before name (hbegin.trans (List.prefix_append _ _)),
        h names last (List.prefix_refl _)⟩

/-- If nothing blocks a way, nothing blocks its front. -/
theorem blocked_of_begins (h : before <+: names) (hclear : fs.blocked base names = none) :
    fs.blocked base before = none :=
  blocked_eq_none_iff.2 fun front name hbegin =>
    blocked_eq_none_iff.1 hclear front name (hbegin.trans h)

/-- One step more opens one place more, if nothing blocks it. -/
theorem opened_concat : fs.Opened base (before ++ [last]) place ↔
    fs.Opened base before place ∨ place = base ++ (before ++ [last]) ∧
    fs.blocked base (before ++ [last]) = none := by
  constructor
  · rintro ⟨front, hne, hbegin, rfl, hclear⟩
    rcases List.prefix_concat_iff.1 hbegin with rfl | hbegin
    · exact .inr ⟨rfl, hclear⟩
    · exact .inl ⟨front, hne, hbegin, rfl, hclear⟩
  · rintro (⟨front, hne, hbegin, rfl, hclear⟩ | ⟨rfl, hclear⟩)
    · exact ⟨front, hne, hbegin.trans (List.prefix_append _ _), rfl, hclear⟩
    · exact ⟨_, by simp, List.prefix_refl _, rfl, hclear⟩

/-- A place is not opened on the way to what is above it. -/
theorem not_opened_concat : ¬fs.Opened base before (base ++ before ++ [last]) := by
  rintro ⟨front, -, hbegin, heq, -⟩
  rw [List.append_assoc, List.append_cancel_left_eq] at heq
  have hlength := hbegin.length_le
  rw [← heq, List.length_append, List.length_singleton] at hlength
  omega

/-- Behind a barrier nothing is opened. -/
theorem opened_concat_of_blocked (h : fs.blocked base (before ++ [last]) ≠ none) :
    fs.Opened base (before ++ [last]) place ↔ fs.Opened base before place := by
  rw [opened_concat]
  exact ⟨fun hopened => hopened.resolve_right fun hclear => h hclear.2, .inl⟩

/-- Where nothing is in the way, the next name is opened unless it is barred. -/
theorem opened_concat_of_clear (h : fs.blocked base before = none) :
    fs.Opened base (before ++ [last]) place ↔
      fs.Opened base before place ∨ place = base ++ before ++ [last] ∧
        fs.barrierEnd (base ++ before) last = none := by
  rw [opened_concat, blocked_concat, h, Option.none_or, barrier_eq_none_iff, List.append_assoc]

/-! ### Reaching a directory -/

/-- What comes of following names from a directory. -/
inductive Reaches (fs : FileSystem) (base names : List String) :
    Except FileError (List String) → Prop
  /-- All of them are directories. -/
  | found (hdir : fs.kind? (base ++ names) = some .dir) (hclear : fs.blocked base names = none)
      (hopened : ∀ place, fs.Opened base names place → fs.kind? place = some .dir) :
      Reaches fs base names (.ok (base ++ names))
  /-- One of them is not there, and no barrier in front of it. -/
  | absent (hnone : fs.kind? (base ++ names) = none) : Reaches fs base names (.error .notFound)
  /-- There is a barrier, and all in front of it are directories. -/
  | barred {e : FileError} (hne : e ≠ .notFound) (hblocked : fs.blocked base names = some e)
      (hopened : ∀ place, fs.Opened base names place → fs.kind? place = some .dir) :
      Reaches fs base names (.error e)

/-- From a directory each way of proper names is followed, or refused for what stands on it. -/
theorem reaches (hbase : fs.kind? base = some .dir) (hnames : ∀ name ∈ names, IsProper name) :
    Reaches fs base names (fs.reach base names) := by
  induction names using List.reverseRecOn with
  | nil =>
    rw [reach_nil hbase]
    have hopened : ∀ place, fs.Opened base [] place → fs.kind? place = some .dir := by
      rintro place ⟨front, hne, hbegin, -⟩
      exact absurd (List.prefix_nil.1 hbegin) hne
    have hfound := @Reaches.found fs base [] (by rwa [List.append_nil]) rfl hopened
    rwa [List.append_nil] at hfound
  | append_singleton names name ih =>
    have hinit : ∀ other ∈ names, IsProper other :=
      fun other hother => hnames other (List.mem_append_left _ hother)
    rw [reach_concat hbase hinit (hnames name (by simp))]
    have hblocked := blocked_concat fs base names name
    generalize fs.reach base names = result at ih
    rcases ih hinit with ⟨hdir, hclear, hopened⟩ | hnone | ⟨hne, hbarrier, hopened⟩
    · change Reaches fs base (names ++ [name]) (fs.enter (base ++ names) name)
      rw [hclear, Option.none_or] at hblocked
      have hstay (hbarrier : fs.barrier (base ++ names) name ≠ none) :
          ∀ place, fs.Opened base (names ++ [name]) place → fs.kind? place = some .dir :=
            fun place hplace =>
        hopened place ((opened_concat_of_blocked (hblocked ▸ hbarrier)).1 hplace)
      unfold barrier at hblocked hstay
      unfold enter
      split
      · next hlong =>
        rw [if_pos hlong] at hblocked hstay
        exact .barred nofun hblocked (hstay (Option.some_ne_none _))
      · next hshort =>
        rw [if_neg hshort] at hblocked hstay
        split
        · next hnone => exact .absent (by rwa [← List.append_assoc])
        · next content hfile =>
          rw [hfile] at hblocked hstay
          exact .barred nofun hblocked (hstay (Option.some_ne_none _))
        · next hnext =>
          rw [hnext] at hblocked
          rw [List.append_assoc] at hnext ⊢
          refine .found hnext hblocked fun place hplace => ?_
          rcases opened_concat.1 hplace with hplace | ⟨rfl, -⟩
          · exact hopened place hplace
          · exact hnext
    · -- below nothing there is nothing
      refine .absent ?_
      by_contra hnext
      rw [← List.append_assoc] at hnext
      rw [kind?_above hnext] at hnone
      cases hnone
    · rw [hbarrier, Option.some_or] at hblocked
      refine .barred hne hblocked fun place hplace => ?_
      exact hopened place
        ((opened_concat_of_blocked (by rw [hblocked]; exact Option.some_ne_none _)).1 hplace)

/-! ### One directory -/

/-- What an attempt comes to. -/
def attempt {ε : Type} : Option ε → Except ε Unit
  | none => .ok ()
  | some e => .error e

/-- The second file system is the first one with these places made directories. -/
structure Made (fs fs' : FileSystem) (opened : List String → Prop) : Prop where
  /-- The working directory is the same. -/
  work : fs'.work = fs.work
  /-- The places are directories. -/
  dir : ∀ place, opened place → fs'.kind? place = some .dir
  /-- All others are as they were. -/
  kept : ∀ place, ¬opened place → fs'.kind? place = fs.kind? place

/-- Nothing is made where there are directories already. -/
theorem Made.refl {opened : List String → Prop}
    (h : ∀ place, opened place → fs.kind? place = some .dir) :
    Made fs fs opened := ⟨rfl, h, fun _ _ => rfl⟩

/-- Directories stay directories. -/
theorem Made.dir_of_dir {opened : List String → Prop} (h : Made fs fs' opened)
    (hdir : fs.kind? place = some .dir) :
    fs'.kind? place = some .dir := by
  by_cases hplace : opened place
  · exact h.dir place hplace
  · rw [h.kept place hplace, hdir]

/-- What is opened in two turns. -/
theorem Made.trans {fs'' : FileSystem} {opened opened' : List String → Prop}
    (h : Made fs fs' opened) (h' : Made fs' fs'' opened') :
    Made fs fs'' fun place => opened place ∨ opened' place where
  work := h'.work.trans h.work
  dir place hplace := by
    by_cases hopened : opened' place
    · exact h'.dir place hopened
    · rw [h'.kept place hopened]
      exact h.dir place (hplace.resolve_right hopened)
  kept place hplace := by
    rw [not_or] at hplace
    rw [h'.kept place hplace.2, h.kept place hplace.1]

/-- What is opened may be said in other words. -/
theorem Made.mono {opened opened' : List String → Prop} (h : Made fs fs' opened)
    (hiff : ∀ place, opened' place ↔ opened place) :
    Made fs fs' opened' :=
  ⟨h.work, fun place hplace => h.dir place ((hiff place).1 hplace),
    fun place hplace => h.kept place fun hopened => hplace ((hiff place).2 hopened)⟩

variable {path : String}

/-- A path is located by way of the directory above its last name. -/
theorem locate_eq (hcheck : checkPath path = .ok ()) (hsteps : Path.steps path = before ++ [last]) :
    fs.locate path = fs.reach (fs.start path) before >>= fun place => .ok (place, some last) := by
  unfold locate reach
  rw [hcheck, hsteps, List.reverse_append, List.reverse_singleton, List.singleton_append]
  change (do
    let place ← fs.follow (fs.start path) before.reverse.reverse
    if fs.isDirAt place then return (place, some last) else .error .notDirectory) = _
  rw [List.reverse_reverse]
  cases fs.follow (fs.start path) before with
  | error e => rfl
  | ok place =>
    change (if fs.isDirAt place then _ else _) = ((if fs.isDirAt place then _ else _) >>= _)
    split <;> rfl

/-- A path is a directory exactly if it can be followed to its end. -/
theorem isDir_iff (hcheck : checkPath path = .ok ()) :
    fs.isDir path = true ↔ ∃ place, fs.reach (fs.start path) (Path.steps path) = .ok place := by
  unfold isDir reach
  rw [hcheck]
  cases fs.follow (fs.start path) (Path.steps path) with
  | error e => simp [bind, Except.bind]
  | ok place =>
    change fs.isDirAt place = true ↔ ∃ other, (if fs.isDirAt place then _ else _) = _
    split
    · next hdir => simp [hdir, pure, Except.pure]
    · next hdir => simp [hdir]

theorem run_bind {σ α β : Type} (first : StateM σ α) (next : α → StateM σ β) (s : σ) :
    (first >>= next).run s = (next (first.run s).1).run (first.run s).2 := rfl

/-- Making a directory on the disk is the operation of the file tree, run on its state. -/
theorem run_makeDir (fs : FileSystem) (path : String) : (disk.makeDir path).run fs =
    match fs.makeDir path with
    | .ok fs => (.ok (), fs)
    | .error e => (.error e, fs) := rfl

/-- A directory that is there already is no failure. -/
theorem run_ensureDir (fs : FileSystem) (path : String) : (disk.ensureDir path).run fs =
    match fs.makeDir path with
    | .ok fs => (.ok (), fs)
    | .error .alreadyExists => (if fs.isDir path then .ok () else .error .alreadyExists, fs)
    | .error e => (.error e, fs) := by
  rw [Disk.ensureDir, run_bind, run_makeDir]
  cases fs.makeDir path with
  | ok fs' => rfl
  | error e =>
    cases e with
    | alreadyExists =>
      change (StateT.run (if fs.isDir path then _ else _) fs) = _
      split <;> rfl
    | _ => rfl

/-- A directory is made in the one above, unless something stands there. -/
theorem makeDir_eq (hcheck : checkPath path = .ok ()) (hsteps : Path.steps path = before ++ [last])
    (hlast : IsProper last) : fs.makeDir path = fs.reach (fs.start path) before >>= fun place =>
      if fs.kind? (place ++ [last]) ≠ none then .error .alreadyExists
      else if IsLong last then .error .nameTooLong
      else .ok { fs with tree := fs.tree.put (.dir []) (place ++ [last]) } := by
  have hdots : isDots last = false := by simp [isDots, hlast.1, hlast.2]
  rw [makeDir, locate_eq hcheck hsteps]
  cases fs.reach (fs.start path) before with
  | error e => rfl
  | ok place =>
    change (if isDots last ∨ (fs.tree.at? (place ++ [last])).isSome then _ else _) =
      (if _ then _ else _)
    have hthere : (isDots last = true ∨ (fs.tree.at? (place ++ [last])).isSome = true) ↔
        fs.kind? (place ++ [last]) ≠ none := by
      simp [hdots, kind?, FileTree.kind?, Option.isSome_iff_ne_none]
    by_cases hkind : fs.kind? (place ++ [last]) = none
    · rw [if_neg (by rw [hthere]; exact not_not.2 hkind), if_neg (not_not.2 hkind)]
      by_cases hlong : IsLong last
      · rw [checkName_of_isLong hlong, if_pos hlong]
        rfl
      · rw [checkName_of_not_isLong hlong, if_neg hlong]
        rfl
    · rw [if_pos (hthere.2 hkind), if_pos hkind]

/-- Where the parent cannot be reached, nothing is made. -/
theorem run_ensureDir_of_error (hcheck : checkPath path = .ok ())
    (hsteps : Path.steps path = before ++ [last])
    (hbase : fs.kind? (fs.start path) = some .dir) (hnames : ∀ name ∈ before, IsProper name)
    (hlast : IsProper last) (hreach : fs.reach (fs.start path) before = .error e) :
    (disk.ensureDir path).run fs = (.error e, fs) := by
  have hdir : ¬fs.isDir path = true := by
    rw [isDir_iff hcheck, hsteps, reach_concat hbase hnames hlast, hreach]
    exact nofun
  rw [run_ensureDir, makeDir_eq hcheck hsteps hlast, hreach]
  cases e with
  | alreadyExists =>
    change (if fs.isDir path = true then _ else _, fs) = _
    rw [if_neg hdir]
  | _ => rfl

/-- **In a directory that is there, a directory is made** unless its name is barred. -/
theorem run_ensureDir_of_ok (hcheck : checkPath path = .ok ())
    (hsteps : Path.steps path = before ++ [last])
    (hbase : fs.kind? (fs.start path) = some .dir) (hnames : ∀ name ∈ before, IsProper name)
    (hlast : IsProper last) (hreach : fs.reach (fs.start path) before = .ok above)
    (habove : fs.kind? above = some .dir) :
    ∃ fs', (disk.ensureDir path).run fs = (attempt (fs.barrierEnd above last), fs') ∧
      Made fs fs' fun place => place = above ++ [last] ∧ fs.barrierEnd above last = none := by
  have hdir : fs.isDir path = true ↔ fs.kind? (above ++ [last]) = some .dir ∧ ¬IsLong last := by
    rw [isDir_iff hcheck, hsteps, reach_concat hbase hnames hlast, hreach]
    change (∃ place, fs.enter above last = _) ↔ _
    unfold enter
    by_cases hlong : IsLong last <;> rcases fs.kind? (above ++ [last])
      with _ | _ | _ <;> simp [hlong]
  have hmake : fs.makeDir path =
      if fs.kind? (above ++ [last]) ≠ none then .error .alreadyExists
      else if IsLong last then .error .nameTooLong
      else .ok { fs with tree := fs.tree.put (.dir []) (above ++ [last]) } := by
    rw [makeDir_eq hcheck hsteps hlast, hreach]
    rfl
  have hbarred {e : FileError} (hrun : (disk.ensureDir path).run fs = (.error e, fs)) :
      ∃ fs', (disk.ensureDir path).run fs = (attempt (some e), fs') ∧
        Made fs fs' fun place => place = above ++ [last] ∧ some e = none :=
    ⟨fs, hrun, .refl fun place hplace => absurd hplace.2 (Option.some_ne_none e)⟩
  rw [run_ensureDir] at hbarred ⊢
  unfold barrierEnd
  rcases hkind : fs.kind? (above ++ [last]) with _ | _ | content
  · rw [if_neg (not_not.2 hkind)] at hmake
    by_cases hlong : IsLong last
    · rw [if_pos hlong] at hmake
      simp only [if_pos hlong, hmake] at hbarred ⊢
      exact hbarred rfl
    · rw [if_neg hlong] at hmake
      simp only [if_neg hlong, hmake]
      have hne : fs.kind? (above ++ [last]) ≠ some .dir := by
        rw [hkind]
        exact (Option.some_ne_none _).symm
      have hput := FileTree.kind?_put FileTree.isBare_dir habove hne
      refine ⟨_, rfl, rfl, fun place hplace => ?_, fun place hplace => ?_⟩
      · exact (hput place).trans (if_pos hplace.1)
      · exact (hput place).trans (if_neg fun heq => hplace ⟨heq, trivial⟩)
  · rw [if_pos (by rw [hkind]; exact Option.some_ne_none _)] at hmake
    by_cases hlong : IsLong last
    · simp only [if_pos hlong, hmake] at hbarred ⊢
      exact hbarred (by rw [if_neg fun h => (hdir.1 h).2 hlong])
    · simp only [if_neg hlong, hmake, if_pos (hdir.2 ⟨hkind, hlong⟩)]
      exact ⟨fs, rfl, .refl fun place hplace => hplace.1 ▸ hkind⟩
  · rw [if_pos (by rw [hkind]; exact Option.some_ne_none _)] at hmake
    simp only [hmake] at hbarred ⊢
    exact hbarred
      (by rw [if_neg fun h => Kind.noConfusion (Option.some.inj (hkind.symm.trans (hdir.1 h).1))])

/-! ### A directory and those above it -/

/-- Paths that are both absolute, or both not, start from the same place. -/
theorem start_eq {parent : String} (h : Path.isAbsolute parent = Path.isAbsolute path) :
    fs.start parent = fs.start path := by
  rw [start, start, h]

/-- Making directories does not move the place that a path starts from. -/
theorem Made.start_eq {opened : List String → Prop} (h : Made fs fs' opened) (path : String) :
    fs'.start path = fs.start path := by
  rw [start, start, h.work]

/-- A path in front of one that has the form of a path has it as well. -/
theorem checkPath_of_append {parent behind : String} (h : checkPath (parent ++ behind) = .ok ())
    (hne : parent ≠ "") :
    checkPath parent = .ok () := by
  unfold checkPath at h ⊢
  split at h
  · cases h
  · next hnul =>
    split at h
    · cases h
    · split at h
      · cases h
      · next hsize =>
        rw [String.utf8ByteSize_append] at hsize
        rw [if_neg, if_neg hne, if_neg (by omega)]
        intro hmem
        refine hnul ?_
        simp only [String.toList_append, List.contains_eq_mem, List.mem_append, decide_eq_true_eq]
          at hmem ⊢
        exact .inl hmem

/-- Names that are opened are directories now, and nothing is in the way of what follows them. -/
theorem Made.reach_eq (h : Made fs fs' (fs.Opened base names)) (hbase : fs.kind? base = some .dir)
    (hnames : ∀ name ∈ names, IsProper name) (hclear : fs.blocked base names = none) :
    fs'.reach base names = .ok (base ++ names) ∧ fs'.kind? (base ++ names) = some .dir := by
  have hopened : ∀ front, front <+: names → front ≠ [] → fs'.kind? (base ++ front) = some .dir :=
    fun front hfront hne =>
      h.dir _ ⟨front, hne, hfront, rfl, blocked_of_begins hfront hclear⟩
  have hdir : fs'.kind? (base ++ names) = some .dir := by
    by_cases hne : names = []
    · rw [hne, List.append_nil]
      exact h.dir_of_dir hbase
    · exact hopened names (List.prefix_refl _) hne
  have hclear' : fs'.blocked base names = none := blocked_eq_none_iff.2 fun before name hbegin => by
    have hkind := hopened (before ++ [name]) hbegin (by simp)
    rw [← List.append_assoc] at hkind
    rw [barrier, if_neg (barrier_eq_none (blocked_eq_none_iff.1 hclear before name hbegin)).1,
      hkind]
  have hreaches := reaches (h.dir_of_dir hbase) hnames
  generalize fs'.reach base names = result at hreaches
  rcases hreaches with ⟨-, -, -⟩ | hnone | ⟨-, hblocked, -⟩
  · exact ⟨rfl, hdir⟩
  · rw [hdir] at hnone
    cases hnone
  · rw [hclear'] at hblocked
    cases hblocked

/-- If the directory above is missing, those above it are made first. -/
theorem run_makeDirsAlong (htop : ¬(path = "" ∨ path = "/")) (above : List String)
    {result : Except FileError Unit} (hrun : (disk.ensureDir path).run fs = (result, fs')) :
    (disk.makeDirsAlong (path :: above)).run fs =
      if result = .error .notFound then
        match (disk.makeDirsAlong above).run fs' with
        | (.error e, fs) => (.error e, fs)
        | (.ok (), fs) => (disk.ensureDir path).run fs
      else (result, fs') := by
  rw [Disk.makeDirsAlong, if_neg htop, run_bind, hrun]
  rcases result with e | ⟨⟩
  · cases e with
    | notFound =>
      rw [if_pos rfl]
      change StateT.run (disk.makeDirsAlong above >>= _) fs' = _
      rw [run_bind]
      rcases (disk.makeDirsAlong above).run fs' with ⟨_ | _, fs''⟩ <;> rfl
    | _ => rfl
  · rfl

theorem attempt_eq_error_iff {ε : Type} {e : ε} {outcome : Option ε} :
    attempt outcome = .error e ↔ outcome = some e := by
  cases outcome <;> simp [attempt]

/-- What stands at the end of a way is never reported as missing. -/
theorem barrierEnd_ne_notFound : fs.barrierEnd above name ≠ some .notFound := by
  unfold barrierEnd
  split <;> (try split) <;> simp

/-- Below a barrier there is nothing to make. -/
theorem Made.of_blocked (h : Made fs fs' (fs.Opened base before))
    (hblocked : fs.blocked base before ≠ none) :
    Made fs fs' (fs.Opened base (before ++ [last])) := by
  refine h.mono fun place => opened_concat_of_blocked ?_
  rw [blocked_concat, Ne, Option.or_eq_none_iff]
  exact fun hnone => hblocked hnone.1

/-- **Once the directories above it are made, the directory itself is made** unless its name is
barred. -/
theorem run_ensureDir_of_made {fs₁ : FileSystem} (hcheck : checkPath path = .ok ())
    (hsteps : Path.steps path = before ++ [last]) (hbase : fs.kind? (fs.start path) = some .dir)
    (hnames : ∀ name ∈ before, IsProper name) (hlast : IsProper last)
    (hclear : fs.blocked (fs.start path) before = none)
    (hmade : Made fs fs₁ (fs.Opened (fs.start path) before)) :
    ∃ fs₂, (disk.ensureDir path).run fs₁ =
      (attempt (fs.refusal (fs.start path) (before ++ [last])), fs₂) ∧
      Made fs fs₂ (fs.Opened (fs.start path) (before ++ [last])) := by
  obtain ⟨hreach, hdir⟩ := hmade.reach_eq hbase hnames hclear
  rw [← hmade.start_eq path] at hreach hdir
  have hbase₁ : fs₁.kind? (fs₁.start path) = some .dir := by
    rw [hmade.start_eq]
    exact hmade.dir_of_dir hbase
  obtain ⟨fs₂, hrun, hlast⟩ := run_ensureDir_of_ok hcheck hsteps hbase₁ hnames hlast hreach hdir
  -- the place of the directory itself is none of those made so far, so it is barred as it was at
  -- first
  have hend : fs₁.barrierEnd (fs.start path ++ before) last =
      fs.barrierEnd (fs.start path ++ before) last := by
    rw [barrierEnd, barrierEnd, hmade.kept _ not_opened_concat]
  rw [hmade.start_eq, hend] at hrun hlast
  refine ⟨fs₂, ?_, (hmade.trans hlast).mono fun place => opened_concat_of_clear hclear⟩
  rw [hrun, refusal_concat, hclear, Option.none_or]

/-- **A directory is made along with those above it**: up to the first barrier, all names on the way
are those of directories afterwards, and the attempt succeeds if there is none. -/
theorem makeDirsAlong_eq (names : List String) : ∀ {fs : FileSystem} {path : String} {bound : Nat},
    Path.IsPlain path → Path.steps path = names → (names = [] → path = "" ∨ path = "/") →
    names.length ≤ bound →
    (names ≠ [] → checkPath path = .ok ()) → fs.kind? (fs.start path) = some .dir →
    ∃ fs', (disk.makeDirsAlong (path :: Path.ancestorsUpTo path bound)).run fs =
        (attempt (fs.refusal (fs.start path) names), fs') ∧
        Made fs fs' (fs.Opened (fs.start path) names) := by
  induction names using List.reverseRecOn with
  | nil =>
    intro fs path bound _ _ htop _ _ _
    refine ⟨fs, ?_, .refl ?_⟩
    · rw [Disk.makeDirsAlong, if_pos (htop rfl)]
      rfl
    · rintro place ⟨front, hne, hbegin, -⟩
      exact absurd (List.prefix_nil.1 hbegin) hne
  | append_singleton before last ih =>
    intro fs path bound hplain hsteps _ hbound hcheck hbase
    have hcheck := hcheck (by simp)
    have hproper : ∀ name ∈ before ++ [last], IsProper name := hsteps ▸ hplain
    have hnames : ∀ name ∈ before, IsProper name :=
      fun name hname => hproper name (List.mem_append_left _ hname)
    have hlast := hproper last (by simp)
    have htop : ¬(path = "" ∨ path = "/") := by
      rintro (rfl | rfl) <;> simp [Path.steps, slashParts, splitSlashes] at hsteps
    obtain ⟨parent, hparent⟩ := Path.exists_parent hplain hsteps
    obtain ⟨bound, rfl⟩ := Nat.exists_eq_succ_of_ne_zero (show bound ≠ 0 by
      rintro rfl
      simp at hbound)
    rw [Path.ancestorsUpTo, hparent.parent_eq]
    have hreaches := reaches hbase hnames
    generalize hreach : fs.reach (fs.start path) before = result at hreaches
    rcases hreaches with ⟨-, hclear, hopened⟩ | hnone | ⟨hne, hbarrier, hopened⟩
    · -- only the last directory is missing
      obtain ⟨fs', hrun, hmade⟩ :=
        run_ensureDir_of_made hcheck hsteps hbase hnames hlast hclear (.refl hopened)
      refine ⟨fs', ?_, hmade⟩
      rw [run_makeDirsAlong htop _ hrun, if_neg]
      rw [attempt_eq_error_iff, refusal_concat, hclear, Option.none_or]
      exact barrierEnd_ne_notFound
    · -- the parent is made first
      have hrun := run_ensureDir_of_error hcheck hsteps hbase hnames hlast hreach
      obtain ⟨behind, hbehind⟩ := hparent.exists_behind
      have hcheckParent (hne : before ≠ []) : checkPath parent = .ok () := by
        refine checkPath_of_append (hbehind ▸ hcheck) ?_
        rintro rfl
        exact hne hparent.steps_eq.symm
      have hstart := @start_eq fs path parent hparent.isAbsolute_eq
      obtain ⟨fs₁, hrun₁, hmade₁⟩ :=
        @ih fs parent bound (hparent.isPlain hplain hsteps) hparent.steps_eq hparent.top
        (by simpa using hbound) hcheckParent (hstart ▸ hbase)
      rw [hstart] at hmade₁ hrun₁
      rw [run_makeDirsAlong htop _ hrun, if_pos rfl, hrun₁, refusal_eq_blocked hnone]
      cases hclear : fs.blocked (fs.start path) before with
      | some e =>
        refine ⟨fs₁, ?_, hmade₁.of_blocked (by rw [hclear]; exact Option.some_ne_none e)⟩
        rw [refusal_concat, hclear, Option.some_or]
        rfl
      | none => exact run_ensureDir_of_made hcheck hsteps hbase hnames hlast hclear hmade₁
    · -- there is a barrier further up
      have hrun := run_ensureDir_of_error hcheck hsteps hbase hnames hlast hreach
      refine ⟨fs, ?_,
        Made.of_blocked (.refl hopened) (by rw [hbarrier]; exact Option.some_ne_none _)⟩
      rw [run_makeDirsAlong htop _ hrun, if_neg (by simpa using hne), refusal_concat, hbarrier,
        Option.some_or]
      rfl

/-- Making a directory with all above it opens the places on its way, or is refused for what stands
there. -/
theorem makeDirs_eq (hplain : Path.IsPlain path)
    (htop : Path.steps path = [] → path = "" ∨ path = "/")
    (hcheck : Path.steps path ≠ [] → checkPath path = .ok ())
    (hbase : fs.kind? (fs.start path) = some .dir) :
    ∃ fs', (disk.makeDirs path).run fs =
      (attempt (fs.refusal (fs.start path) (Path.steps path)), fs') ∧
      Made fs fs' (fs.Opened (fs.start path) (Path.steps path)) :=
  makeDirsAlong_eq _ hplain rfl htop (List.length_filter_le _ _) hcheck hbase

end FileSystem

end BuilderApi
