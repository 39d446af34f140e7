import BuilderApi.Output.Artifact
import BuilderApi.Proofs.Files.Directories

/-!
# A batch of artifacts, in any order

The artifacts of a batch may be written at the same time, and then it is left open in which order.
Each write makes the directories above its file and then the file. Writes to different files share
directories, and one of them finds what another one has made; but that is no difference to it, since
only files and names are in its way (`BuilderApi.FileSystem.Follows.writeRefusal_eq`). So every
write comes to what it would come to alone, whatever ran before
(`BuilderApi.FileSystem.writeEach_eq`), and a batch leaves the same files and the same error in
every order (`BuilderApi.FileSystem.writeBatch_unordered`).
-/

namespace BuilderApi

namespace FileSystem

variable {fs fs' : FileSystem} {path : String} {before : List String} {last : String}
  {content : ByteArray}

/-! ### One file -/

/-- The place that a path leads to. -/
def target (fs : FileSystem) (path : String) : List String := fs.start path ++ Path.steps path

/-- Why a file cannot be written at a place whose directory is there. -/
def fileRefusal (fs : FileSystem) (path : String) : Option FileError :=
  match checkPath path, (Path.steps path).getLast? with
  | .error e, _ => some e
  | .ok _, none => some .isDirectory
  | .ok _, some last =>
    if Path.endsWithSlash path ∨ fs.kind? (fs.target path) = some .dir then some .isDirectory
    else if IsLong last then some .nameTooLong
    else none

/-- The second file system is the first one with these places made directories and these files
written. -/
structure Edited (fs fs' : FileSystem) (opened : List String → Prop)
    (written : List String → ByteArray → Prop) :
    Prop where
  /-- The working directory is the same. -/
  work : fs'.work = fs.work
  /-- The files are there. -/
  file : ∀ place content, written place content → fs'.kind? place = some (.file content)
  /-- The directories are there. -/
  dir : ∀ place, opened place → fs'.kind? place = some .dir
  /-- All other places are as they were. -/
  kept : ∀ place, ¬opened place → (∀ content, ¬written place content) →
    fs'.kind? place = fs.kind? place

/-- The file that a write comes to, unless there is a reason against it. -/
def Writes {ε : Type} (refusal : Option ε) (target : List String) (content : ByteArray)
    (place : List String) (found : ByteArray) : Prop :=
  refusal = none ∧ place = target ∧ found = content

/-- Writing on the disk is the operation of the file tree, run on its state. -/
theorem run_write (fs : FileSystem) (path : String) (content : ByteArray) :
    (disk.write path content).run fs =
    match fs.write path content with
    | .ok fs => (.ok (), fs)
    | .error e => (.error e, fs) := rfl

/-- Writing to a proper name goes to the directory above and puts a file there. -/
theorem write_eq (hcheck : checkPath path = .ok ()) (hsteps : Path.steps path = before ++ [last])
    (hlast : IsProper last) :
    fs.write path content = fs.reach (fs.start path) before >>= fun place =>
      if Path.endsWithSlash path ∨ fs.kind? (place ++ [last]) = some .dir then .error .isDirectory
      else if IsLong last then .error .nameTooLong
      else .ok { fs with tree := fs.tree.put (.file content) (place ++ [last]) } := by
  have hdots : isDots last = false := by simp [isDots, hlast.1, hlast.2]
  rw [write, locate_eq hcheck hsteps]
  cases fs.reach (fs.start path) before with
  | error e => rfl
  | ok place =>
    have hdir : (isDots last = true ∨ Path.endsWithSlash path = true ∨
        fs.isDirAt (place ++ [last]) = true) ↔
        (Path.endsWithSlash path = true ∨ fs.kind? (place ++ [last]) = some .dir) := by
      rw [hdots, isDirAt_iff]
      simp
    change (if isDots last = true ∨ Path.endsWithSlash path = true ∨
      fs.isDirAt (place ++ [last]) = true then _ else _) =
      (if _ then _ else _)
    by_cases hrefused : Path.endsWithSlash path = true ∨ fs.kind? (place ++ [last]) = some .dir
    · rw [if_pos (hdir.2 hrefused), if_pos hrefused]
    · rw [if_neg (mt hdir.1 hrefused), if_neg hrefused]
      by_cases hlong : IsLong last
      · rw [checkName_of_isLong hlong, if_pos hlong]
        rfl
      · rw [checkName_of_not_isLong hlong, if_neg hlong]
        rfl

/-- **In a directory that is there, a file is written** unless there is a reason against it. -/
theorem run_write_of_reach (hplain : Path.IsPlain path)
    (hreach : fs.reach (fs.start path) (Path.steps path).dropLast =
      .ok (fs.start path ++ (Path.steps path).dropLast))
    (hdir : fs.kind? (fs.start path ++ (Path.steps path).dropLast) = some .dir) :
    ∃ fs', (disk.write path content).run fs = (attempt (fs.fileRefusal path), fs') ∧
      Edited fs fs' (fun _ => False) (Writes (fs.fileRefusal path) (fs.target path) content) := by
  have hrefused {e : FileError} (hwrite : fs.write path content = .error e)
      (hrefusal : fs.fileRefusal path = some e) :
      ∃ fs', (disk.write path content).run fs = (attempt (fs.fileRefusal path), fs') ∧
        Edited fs fs' (fun _ => False) (Writes (fs.fileRefusal path) (fs.target path) content) := by
    rw [run_write, hwrite, hrefusal]
    exact ⟨fs, rfl, rfl, fun _ _ h => (nomatch h.1), nofun, fun _ _ _ => rfl⟩
  cases hcheck : checkPath path with
  | error e => exact hrefused (by rw [write, locate, hcheck]; rfl) (by rw [fileRefusal, hcheck])
  | ok u =>
    rcases List.eq_nil_or_concat' (Path.steps path) with hsteps | ⟨before, last, hsteps⟩
    · exact hrefused (by rw [write, locate, hcheck, hsteps]; rfl)
        (by rw [fileRefusal, hcheck, hsteps]; rfl)
    · have hlast : IsProper last := hplain last (by rw [hsteps]; simp)
      have htarget : fs.target path = fs.start path ++ before ++ [last] := by
        rw [target, hsteps, List.append_assoc]
      rw [hsteps, List.dropLast_concat] at hreach hdir
      have hwrite := @write_eq fs path before last content hcheck hsteps hlast
      have hrefusal : fs.fileRefusal path =
          if Path.endsWithSlash path ∨ fs.kind? (fs.target path) = some .dir then some .isDirectory
          else if IsLong last then some .nameTooLong
          else none := by
        rw [fileRefusal, hcheck, hsteps, List.getLast?_concat]
      rw [hreach] at hwrite
      change _ = (if _ then _ else _) at hwrite
      rw [← htarget] at hwrite
      by_cases hblocked : Path.endsWithSlash path = true ∨ fs.kind? (fs.target path) = some .dir
      · rw [if_pos hblocked] at hwrite hrefusal
        exact hrefused hwrite hrefusal
      · rw [if_neg hblocked] at hwrite hrefusal
        by_cases hlong : IsLong last
        · rw [if_pos hlong] at hwrite hrefusal
          exact hrefused hwrite hrefusal
        · rw [if_neg hlong] at hwrite hrefusal
          rw [run_write, hwrite, hrefusal]
          have hput := FileTree.kind?_put (FileTree.isBare_file content) hdir
            (htarget ▸ fun h => hblocked (.inr h) :
              fs.kind? (fs.start path ++ before ++ [last]) ≠ some .dir)
          rw [← htarget] at hput
          refine ⟨_, rfl, rfl, ?_, nofun, fun place _ hplace => ?_⟩
          · rintro place found ⟨-, rfl, rfl⟩
            exact (hput _).trans (if_pos rfl)
          · exact (hput place).trans (if_neg fun heq => hplace content ⟨rfl, heq, rfl⟩)

/-- Where only directories were made, no file was written. -/
theorem Made.edited {opened : List String → Prop} {written : List String → ByteArray → Prop}
    (h : Made fs fs' opened) (hwritten : ∀ place content, ¬written place content) :
    Edited fs fs' opened written :=
  ⟨h.work, fun place content hplace => absurd hplace (hwritten place content), h.dir,
    fun place hplace _ => h.kept place hplace⟩

namespace Edited

variable {fs'' : FileSystem} {opened opened' : List String → Prop}
  {written written' : List String → ByteArray → Prop}

/-- One edit after another, if neither is in the way of what the other one writes. -/
theorem trans (h : Edited fs fs' opened written) (h' : Edited fs' fs'' opened' written')
    (hkeep : ∀ place content, written place content →
      ¬opened' place ∧ ∀ other, ¬written' place other)
    (hopen : ∀ place content, opened place → ¬written' place content) :
    Edited fs fs'' (fun place => opened place ∨ opened' place)
      (fun place content => written place content ∨ written' place content) where
  work := h'.work.trans h.work
  file place content hplace := by
    rcases hplace with hplace | hplace
    · rw [h'.kept place (hkeep place content hplace).1 (hkeep place content hplace).2]
      exact h.file place content hplace
    · exact h'.file place content hplace
  dir place hplace := by
    by_cases hopened : opened' place
    · exact h'.dir place hopened
    · have hplace := hplace.resolve_right hopened
      rw [h'.kept place hopened fun content => hopen place content hplace]
      exact h.dir place hplace
  kept place hopened hwritten := by
    rw [not_or] at hopened
    rw [h'.kept place hopened.2 fun content hplace => hwritten content (.inr hplace)]
    exact h.kept place hopened.1 fun content hplace => hwritten content (.inl hplace)

/-- What was opened and written may be said in other words. -/
theorem congr (h : Edited fs fs' opened written) (hopened : ∀ place, opened' place ↔ opened place)
    (hwritten : ∀ place content, written' place content ↔ written place content) :
    Edited fs fs' opened' written' where
  work := h.work
  file place content hplace := h.file place content ((hwritten place content).1 hplace)
  dir place hplace := h.dir place ((hopened place).1 hplace)
  kept place hplace hnone := h.kept place (fun h => hplace ((hopened place).2 h)) fun content h =>
    hnone content ((hwritten place content).2 h)

/-- Writing does not move the place that a path starts from. -/
theorem start_eq (h : Edited fs fs' opened written) (path : String) :
    fs'.start path = fs.start path := by
  rw [start, start, h.work]

end Edited

/-! ### One artifact -/

/-- What is wrong with the form of a path whose directories are to be made. -/
def formRefusal (path : String) : Option FileError :=
  if Path.steps path = [] then none
  else
    match checkPath path with
    | .error e => some e
    | .ok _ => none

/-- Why the directory of a path cannot be made. -/
def parentRefusal (fs : FileSystem) (path : String) : Option WriteError :=
  match Path.parent? path with
  | none => none
  | some parent =>
    ((formRefusal parent).or (fs.refusal (fs.start path) (Path.steps path).dropLast)).map
      (WriteError.mk parent)

/-- Why an artifact cannot be written at a path. -/
def writeRefusal (fs : FileSystem) (path : String) : Option WriteError :=
  (fs.parentRefusal path).or ((fs.fileRefusal path).map (WriteError.mk path))

/-- A directory that is made for a path. -/
def OpenedFor (fs : FileSystem) (path : String) (place : List String) : Prop :=
  (∃ parent, Path.parent? path = some parent ∧ formRefusal parent = none) ∧
    fs.Opened (fs.start path) (Path.steps path).dropLast place

/-- The directory above a path is made if there is one. -/
theorem run_makeParent (fs : FileSystem) (path : String) : (disk.makeParent path).run fs =
    match Path.parent? path with
    | none => (.ok (), fs)
    | some parent =>
      let (result, fs) := (disk.makeDirs parent).run fs
      (result.mapError (WriteError.mk parent), fs) := by
  unfold Disk.makeParent
  cases Path.parent? path <;> rfl

/-- A path whose form is wrong is tried and given up at once. -/
theorem run_makeDirs_of_formRefusal {parent : String} {e : FileError}
    (h : formRefusal parent = some e) :
    (disk.makeDirs parent).run fs = (.error e, fs) := by
  unfold formRefusal at h
  split at h
  · cases h
  · next hsteps =>
    have htop : ¬(parent = "" ∨ parent = "/") := by
      rintro (rfl | rfl) <;> exact hsteps rfl
    split at h
    · next e' hcheck =>
      obtain rfl := Option.some.inj h
      have hne : e' ≠ .notFound := by
        rintro rfl
        unfold checkPath at hcheck
        split_ifs at hcheck with _ hempty _
        · cases hcheck
        · exact htop (.inl hempty)
        · cases hcheck
      have hdir : ¬fs.isDir parent = true := by simp [isDir, hcheck]
      have hrun : (disk.ensureDir parent).run fs = (.error e', fs) := by
        rw [run_ensureDir, makeDir, locate, hcheck]
        cases e' with
        | alreadyExists =>
          change (if fs.isDir parent = true then _ else _, fs) = _
          rw [if_neg hdir]
        | _ => rfl
      rw [Disk.makeDirs, run_makeDirsAlong htop _ hrun, if_neg (by simpa using hne)]
    · cases h

/-- Making the directory above a path opens places on its way, or is refused for what stands
there. -/
theorem run_makeParent_eq (hplain : Path.IsPlain path)
    (hbase : fs.kind? (fs.start path) = some .dir) :
    ∃ fs', (disk.makeParent path).run fs = (attempt (fs.parentRefusal path), fs') ∧
      Made fs fs' (fs.OpenedFor path) := by
  rw [run_makeParent]
  rcases List.eq_nil_or_concat' (Path.steps path) with hsteps | ⟨before, last, hsteps⟩
  · have hparent := Path.parent?_eq_none hplain hsteps
    rw [parentRefusal, hparent]
    refine ⟨fs, rfl, .refl ?_⟩
    rintro place ⟨⟨parent, hparent', -⟩, -⟩
    rw [hparent] at hparent'
    cases hparent'
  · obtain ⟨parent, hparent⟩ := Path.exists_parent hplain hsteps
    rw [parentRefusal, hparent.parent_eq]
    cases hform : formRefusal parent with
    | some e =>
      simp only [run_makeDirs_of_formRefusal hform, hform, Option.some_or]
      refine ⟨fs, rfl, .refl ?_⟩
      rintro place ⟨⟨parent', hparent', hform'⟩, -⟩
      rw [hparent.parent_eq] at hparent'
      cases hparent'
      rw [hform] at hform'
      cases hform'
    | none =>
      have hstart := @start_eq fs path parent hparent.isAbsolute_eq
      have hcheck (hne : Path.steps parent ≠ []) : checkPath parent = .ok () := by
        rw [formRefusal, if_neg hne] at hform
        split at hform
        · cases hform
        · assumption
      have htop (hnil : Path.steps parent = []) : parent = "" ∨ parent = "/" :=
        hparent.top (hparent.steps_eq ▸ hnil)
      obtain ⟨fs', hrun, hmade⟩ :=
        makeDirs_eq (hparent.isPlain hplain hsteps) htop hcheck (hstart ▸ hbase)
      rw [hstart, hparent.steps_eq] at hrun hmade
      rw [hsteps, List.dropLast_concat]
      simp only [hrun, hform, Option.none_or]
      refine ⟨fs', ?_, hmade.mono fun place => ?_⟩
      · cases fs.refusal (fs.start path) before <;> rfl
      · rw [OpenedFor, hsteps, List.dropLast_concat]
        exact and_iff_right ⟨parent, hparent.parent_eq, hform⟩

/-- The target of a path is not among the directories that are made for it. -/
theorem not_openedFor_target (hplain : Path.IsPlain path) :
    ¬fs.OpenedFor path (fs.target path) := by
  rintro ⟨⟨parent, hparent, -⟩, hopened⟩
  rcases List.eq_nil_or_concat' (Path.steps path) with hsteps | ⟨before, last, hsteps⟩
  · rw [Path.parent?_eq_none hplain hsteps] at hparent
    cases hparent
  · rw [target, hsteps, List.dropLast_concat, ← List.append_assoc] at hopened
    exact not_opened_concat hopened

/-- Without a reason against it, all directories above the target are made. -/
theorem openedFor_iff (hplain : Path.IsPlain path) (h : fs.parentRefusal path = none) :
    fs.blocked (fs.start path) (Path.steps path).dropLast = none ∧
      ∀ place, fs.OpenedFor path place ↔
        fs.Opened (fs.start path) (Path.steps path).dropLast place := by
  rcases List.eq_nil_or_concat' (Path.steps path) with hsteps | ⟨before, last, hsteps⟩
  · rw [hsteps]
    refine ⟨rfl, fun place => ⟨fun hplace => ?_, ?_⟩⟩
    · obtain ⟨⟨parent, hparent, -⟩, -⟩ := hplace
      rw [Path.parent?_eq_none hplain hsteps] at hparent
      cases hparent
    · rintro ⟨front, hne, hbegin, -⟩
      exact absurd (List.prefix_nil.1 hbegin) hne
  · obtain ⟨parent, hparent⟩ := Path.exists_parent hplain hsteps
    rw [parentRefusal, hparent.parent_eq] at h
    obtain ⟨hform, hrefusal⟩ := Option.or_eq_none_iff.1 (Option.map_eq_none_iff.1 h)
    exact ⟨refusal_eq_none_iff.1 hrefusal, fun place =>
      and_iff_right ⟨parent, hparent.parent_eq, hform⟩⟩

/-- **One artifact**: unless there is a reason against it, its file is written; and up to the first
barrier, the directories above it are made in any case. -/
theorem run_writeArtifact {root : String} {artifact : Artifact}
    (hpath : Path.join root artifact.path = path) (hplain : Path.IsPlain path)
    (hbase : fs.kind? (fs.start path) = some .dir) :
    ∃ fs', (disk.writeArtifact root artifact).run fs = (attempt (fs.writeRefusal path), fs') ∧
      Edited fs fs' (fs.OpenedFor path)
        (Writes (fs.writeRefusal path) (fs.target path) artifact.text.toUTF8) := by
  obtain ⟨fs₁, hrun₁, hmade⟩ := run_makeParent_eq hplain hbase
  rw [Disk.writeArtifact, hpath, run_bind, hrun₁, writeRefusal]
  cases hparent : fs.parentRefusal path with
  | some e => exact ⟨fs₁, rfl, hmade.edited fun place content h => nomatch h.1⟩
  | none =>
    rw [Option.none_or]
    obtain ⟨hclear, hopened⟩ := openedFor_iff hplain hparent
    have hproper : ∀ name ∈ (Path.steps path).dropLast, IsProper name := fun name hname =>
      hplain name (List.dropLast_subset _ hname)
    obtain ⟨hreach, hdir⟩ :=
      (hmade.mono fun place => (hopened place).symm).reach_eq hbase hproper hclear
    have hstart := hmade.start_eq path
    rw [← hstart] at hreach hdir
    obtain ⟨fs₂, hrun₂, hwritten⟩ :=
      @run_write_of_reach fs₁ path artifact.text.toUTF8 hplain hreach hdir
    have htarget : fs₁.target path = fs.target path := by rw [target, target, hstart]
    have hfile : fs₁.fileRefusal path = fs.fileRefusal path := by
      rw [fileRefusal, fileRefusal, htarget, hmade.kept _ (not_openedFor_target hplain)]
    rw [hfile, htarget] at hwritten
    rw [hfile] at hrun₂
    refine ⟨fs₂, ?_,
      ((hmade.edited fun _ _ => not_false).trans hwritten (fun _ _ => False.elim) ?_).congr ?_ ?_⟩
    · change StateT.run (disk.write path artifact.text.toUTF8 >>= _) fs₁ = _
      rw [run_bind, hrun₂]
      cases fs.fileRefusal path <;> rfl
    · rintro place content hplace ⟨-, rfl, -⟩
      exact not_openedFor_target hplain hplace
    · simp
    · intro place content
      simp [Writes]

/-! ### Two artifacts -/

/-- Neither place is the other one or above it. -/
def Apart (place other : List String) : Prop := ¬place <+: other ∧ ¬other <+: place

/-- On the way to a place, some directories that were missing are there now, and that is all. -/
def Eased (fs fs' : FileSystem) (goal : List String) : Prop :=
  ∀ above name, above ++ [name] <+: goal →
    fs'.kind? (above ++ [name]) = fs.kind? (above ++ [name]) ∨
      ¬IsLong name ∧ fs.kind? (above ++ [name]) = none ∧ fs'.kind? (above ++ [name]) = some .dir

variable {goal above base names : List String} {name other : String}

/-- Writes that ease the way to a goal leave the same barriers on it. -/
theorem Eased.barrier_eq (h : Eased fs fs' goal) (hbegin : above ++ [name] <+: goal) :
    fs'.barrier above name = fs.barrier above name := by
  rcases h above name hbegin with heq | ⟨hshort, hnone, hdir⟩
  · rw [barrier, barrier, heq]
  · rw [barrier, barrier, hnone, hdir]

theorem Eased.barrierEnd_eq (h : Eased fs fs' goal) (hbegin : above ++ [name] <+: goal) :
    fs'.barrierEnd above name = fs.barrierEnd above name := by
  rcases h above name hbegin with heq | ⟨hshort, hnone, hdir⟩
  · rw [barrierEnd, barrierEnd, heq]
  · simp only [barrierEnd, hnone, hdir, if_neg hshort]

/-- What blocks the way to a goal still blocks it. -/
theorem Eased.blocked_eq (h : Eased fs fs' goal) (hbegin : base ++ names <+: goal) :
    fs'.blocked base names = fs.blocked base names := by
  induction names generalizing base with
  | nil => rfl
  | cons name rest ih =>
    rw [← List.singleton_append, ← List.append_assoc] at hbegin
    rw [blocked, blocked, h.barrier_eq ((List.prefix_append _ _).trans hbegin), ih hbegin]

/-- What is refused on the way to a goal is still refused, for the same reason. -/
theorem Eased.refusal_eq (h : Eased fs fs' goal) (hbegin : base ++ names <+: goal) :
    fs'.refusal base names = fs.refusal base names := by
  rcases List.eq_nil_or_concat' names with rfl | ⟨before, last, rfl⟩
  · rfl
  · rw [← List.append_assoc] at hbegin
    rw [refusal_concat, refusal_concat, h.barrierEnd_eq hbegin,
      h.blocked_eq ((List.prefix_append _ _).trans hbegin)]

/-- The same places on the way to a goal get opened. -/
theorem Eased.opened_iff (h : Eased fs fs' goal) (hbegin : base ++ names <+: goal)
    (place : List String) :
    fs'.Opened base names place ↔ fs.Opened base names place := by
  refine exists_congr fun front => and_congr_right fun _ => and_congr_right fun hfront =>
    and_congr_right fun _ => ?_
  rw [h.blocked_eq (((List.prefix_append_right_inj base).2 hfront).trans hbegin)]

/-- The directory above a path is on the way to the file. -/
theorem dropLast_prefix_target (fs : FileSystem) (path : String) :
    fs.start path ++ (Path.steps path).dropLast <+: fs.target path :=
  (List.prefix_append_right_inj _).2 ( List.dropLast_prefix _)

/-- Places that a job opens are on the way to its file. -/
theorem begins_of_openedFor {place : List String} (h : fs.OpenedFor path place) :
    place <+: fs.target path := by
  obtain ⟨-, front, -, hbegin, rfl, -⟩ := h
  exact ((List.prefix_append_right_inj _).2 hbegin).trans (dropLast_prefix_target fs path)

/-- What is made was not there or is a directory, and has a short name. -/
theorem short_of_openedFor (h : fs.OpenedFor path (above ++ [name])) :
    ¬IsLong name ∧
      (fs.kind? (above ++ [name]) = none ∨ fs.kind? (above ++ [name]) = some .dir) := by
  obtain ⟨-, front, hne, -, heq, hclear⟩ := h
  obtain ⟨before, last, rfl⟩ := (List.eq_nil_or_concat' front).resolve_left hne
  rw [← List.append_assoc] at heq
  obtain ⟨rfl, hlast⟩ := List.append_inj' heq rfl
  obtain rfl := List.singleton_inj.1 hlast
  rw [blocked_concat, Option.or_eq_none_iff] at hclear
  exact barrier_eq_none hclear.2

/-- Places that a job opens are directories already, or nothing yet. -/
theorem kind?_of_openedFor {place : List String} (h : fs.OpenedFor path place) :
    fs.kind? place = none ∨ fs.kind? place = some .dir := by
  obtain ⟨-, front, hne, -, rfl, -⟩ := id h
  obtain ⟨before, last, rfl⟩ := (List.eq_nil_or_concat' front).resolve_left hne
  rw [← List.append_assoc] at h ⊢
  exact (short_of_openedFor h).2

/-- The second file system comes from the first by writing an artifact. -/
def Follows (fs fs' : FileSystem) (path : String) (content : ByteArray) : Prop :=
  Edited fs fs' (fs.OpenedFor path) (Writes (fs.writeRefusal path) (fs.target path) content)

namespace Follows

variable (h : Follows fs fs' path content) (hapart : Apart (fs.target path) (fs.target other))
include h

/-- Another job's file is looked for at the same place as before. -/
theorem target_eq (other : String) : fs'.target other = fs.target other := by
  rw [target, target, h.start_eq]

include hapart

/-- One job eases the way of each other one whose place is apart. -/
theorem eased : Eased fs fs' (fs.target other) := by
  intro above name hbegin
  by_cases hopened : fs.OpenedFor path (above ++ [name])
  · have hdir := h.dir _ hopened
    obtain ⟨hshort, hnone | hthere⟩ := short_of_openedFor hopened
    · exact .inr ⟨hshort, hnone, hdir⟩
    · exact .inl (hdir.trans hthere.symm)
  · refine .inl (h.kept _ hopened ?_)
    rintro found ⟨-, heq, -⟩
    exact hapart.1 (heq ▸ hbegin)

/-- One job leaves what stands at the places of others. -/
theorem kind?_target : fs'.kind? (fs.target other) = fs.kind? (fs.target other) := by
  refine h.kept _ (fun hopened => hapart.2 (begins_of_openedFor hopened)) ?_
  rintro found ⟨-, heq, -⟩
  exact hapart.1 (heq ▸ List.prefix_refl _)

/-- Each path starts from a directory. -/
theorem kind?_start (hbase : fs.kind? (fs.start other) = some .dir) :
    fs'.kind? (fs'.start other) = some .dir := by
  rw [h.start_eq]
  by_cases hopened : fs.OpenedFor path (fs.start other)
  · exact h.dir _ hopened
  · rw [h.kept _ hopened, hbase]
    rintro found ⟨-, heq, -⟩
    exact hapart.1 (heq ▸ List.prefix_append _ _)

/-- **A write that ran before is no reason against another one, and none for it.** -/
theorem writeRefusal_eq : fs'.writeRefusal other = fs.writeRefusal other := by
  have hparent : fs'.parentRefusal other = fs.parentRefusal other := by
    rw [parentRefusal, parentRefusal, h.start_eq,
      (h.eased hapart).refusal_eq (dropLast_prefix_target fs other)]
  have hfile : fs'.fileRefusal other = fs.fileRefusal other := by
    rw [fileRefusal, fileRefusal, h.target_eq, h.kind?_target hapart]
  rw [writeRefusal, writeRefusal, hparent, hfile]

/-- One job leaves what others will open. -/
theorem openedFor_iff (place : List String) :
    fs'.OpenedFor other place ↔ fs.OpenedFor other place := by
  rw [OpenedFor, OpenedFor, h.start_eq,
    (h.eased hapart).opened_iff (dropLast_prefix_target fs other)]

end Follows

end FileSystem

/-! ### All artifacts of a batch -/

/-- The path of an artifact with its root. -/
def jobPath (job : String × Artifact) : String := Path.join job.1 job.2.path

/-- The first failure among results. -/
def firstFailure : List (Except WriteError Unit) → Except WriteError Unit
  | [] => .ok ()
  | .error e :: _ => .error e
  | .ok _ :: rest => firstFailure rest

/-- The first failure by the numbers of the results. -/
def collected (results : List (Nat × Except WriteError Unit)) : Except WriteError Unit :=
  firstFailure ((results.mergeSort fun a b => decide (a.1 ≤ b.1)).map Prod.snd)

/-- Writes numbered artifacts in this order; each write leaves its result with its number. -/
def Disk.writeEach {m : Type → Type} [Monad m] (disk : Disk m) :
    List ((String × Artifact) × Nat) → m (List (Nat × Except WriteError Unit))
  | [] => return []
  | (job, number) :: rest => do
    let result ← disk.writeArtifact job.1 job.2
    return (number, result) :: (← disk.writeEach rest)

namespace FileSystem

variable {fs fs' : FileSystem}

/-- What the write of an artifact comes to alone. -/
def alone (fs : FileSystem) (job : String × Artifact) : Except WriteError Unit :=
  ((disk.writeArtifact job.1 job.2).run fs).1

theorem Apart.symm {place other : List String} (h : Apart place other) :
    Apart other place := ⟨h.2, h.1⟩

/-- **Every write of a batch comes to what it would come to alone**, whatever ran before it; and
together they make and write what each of them makes and writes. -/
theorem writeEach_eq (jobs : List ((String × Artifact) × Nat)) : ∀ {fs : FileSystem},
    (∀ job ∈ jobs, Path.IsPlain (jobPath job.1)) →
    (∀ job ∈ jobs, fs.kind? (fs.start (jobPath job.1)) = some .dir) →
    jobs.Pairwise (fun job other =>
      Apart (fs.target (jobPath job.1)) (fs.target (jobPath other.1))) →
    ∃ fs', (disk.writeEach jobs).run fs =
        (jobs.map fun job => (job.2, attempt (fs.writeRefusal (jobPath job.1))), fs') ∧
      Edited fs fs' (fun place => ∃ job ∈ jobs, fs.OpenedFor (jobPath job.1) place)
        (fun place found => ∃ job ∈ jobs,
          Writes (fs.writeRefusal (jobPath job.1)) (fs.target (jobPath job.1))
          job.1.2.text.toUTF8 place found) := by
  induction jobs with
  | nil => exact fun _ _ _ => ⟨_, rfl, rfl, by simp, by simp, fun _ _ _ => rfl⟩
  | cons job rest ih =>
    intro fs hplain hbase hapart
    obtain ⟨first, number⟩ := job
    rw [List.forall_mem_cons] at hplain hbase
    rw [List.pairwise_cons] at hapart
    obtain ⟨fs₁, hrun₁, hfirst⟩ :=
      @run_writeArtifact fs (jobPath first) first.1 first.2 rfl hplain.1 hbase.1
    have hfollows : Follows fs fs₁ (jobPath first) first.2.text.toUTF8 := hfirst
    -- to the other writes, the file system behind the first one is as good as the one before
    have hbase₁ : ∀ job ∈ rest, fs₁.kind? (fs₁.start (jobPath job.1)) = some .dir := fun job hjob =>
      hfollows.kind?_start (hapart.1 job hjob) (hbase.2 job hjob)
    have hapart₁ : rest.Pairwise fun job other =>
        Apart (fs₁.target (jobPath job.1)) (fs₁.target (jobPath other.1)) := by
      simpa only [hfollows.target_eq] using hapart.2
    obtain ⟨fs₂, hrun₂, hrest⟩ := ih hplain.2 hbase₁ hapart₁
    have hresults : rest.map (fun job => (job.2, attempt (fs₁.writeRefusal (jobPath job.1)))) =
        rest.map fun job => (job.2, attempt (fs.writeRefusal (jobPath job.1))) :=
      List.map_congr_left fun job hjob => by rw [hfollows.writeRefusal_eq (hapart.1 job hjob)]
    have hrest : Edited fs₁ fs₂ (fun place => ∃ job ∈ rest, fs.OpenedFor (jobPath job.1) place)
        (fun place found => ∃ job ∈ rest,
          Writes (fs.writeRefusal (jobPath job.1)) (fs.target (jobPath job.1))
          job.1.2.text.toUTF8 place found) := by
      refine hrest.congr (fun place => ?_) fun place found => ?_
      · exact exists_congr fun job => and_congr_right fun hjob =>
          (hfollows.openedFor_iff (hapart.1 job hjob) place).symm
      · refine exists_congr fun job => and_congr_right fun hjob => ?_
        rw [hfollows.writeRefusal_eq (hapart.1 job hjob), hfollows.target_eq]
    refine ⟨fs₂, ?_, (hfirst.trans hrest ?_ ?_).congr (by simp) (by simp)⟩
    · rw [Disk.writeEach, run_bind, hrun₁, run_bind, hrun₂, hresults]
      simp only [List.map_cons]
      rfl
    · rintro place found ⟨-, rfl, -⟩
      constructor
      · rintro ⟨job, hjob, hopened⟩
        exact (hapart.1 job hjob).1 (begins_of_openedFor hopened)
      · rintro other ⟨job, hjob, -, heq, -⟩
        exact (hapart.1 job hjob).1 (heq ▸ List.prefix_refl _)
    · rintro place found hopened ⟨job, hjob, -, rfl, -⟩
      exact (hapart.1 job hjob).2 (begins_of_openedFor hopened)

/-- Edits that make and write the same come to the same. -/
theorem Edited.kind?_eq {fs'' : FileSystem} {opened opened' : List String → Prop}
    {written written' : List String → ByteArray → Prop} (h : Edited fs fs' opened written)
    (h' : Edited fs fs'' opened' written') (hopened : ∀ place, opened' place ↔ opened place)
    (hwritten : ∀ place content, written' place content ↔ written place content)
    (place : List String) :
    fs'.kind? place = fs''.kind? place := by
  have h' := h'.congr (fun place => (hopened place).symm) fun place content =>
    (hwritten place content).symm
  by_cases hfile : ∃ content, written place content
  · obtain ⟨content, hcontent⟩ := hfile
    rw [h.file place content hcontent, h'.file place content hcontent]
  · by_cases hdir : opened place
    · rw [h.dir place hdir, h'.dir place hdir]
    · rw [h.kept place hdir (not_exists.1 hfile), h'.kept place hdir (not_exists.1 hfile)]

/-- The batch is written in its own order. -/
theorem run_writeBatch (batch : List (String × Artifact)) : ∀ (fs : FileSystem) (number : Nat),
    (disk.writeBatch batch).run fs =
      (firstFailure (((disk.writeEach (batch.zipIdx number)).run fs).1.map Prod.snd),
        ((disk.writeEach (batch.zipIdx number)).run fs).2) := by
  induction batch with
  | nil => exact fun _ _ => rfl
  | cons job rest ih =>
    intro fs number
    obtain ⟨root, artifact⟩ := job
    rw [Disk.writeBatch, run_bind, run_bind, ih _ (number + 1), List.zipIdx_cons, Disk.writeEach,
      run_bind, run_bind]
    rcases (disk.writeArtifact root artifact).run fs with ⟨_ | _, fs₁⟩ <;> rfl

/-- The results of a batch, in whichever order they come, are collected in its own order. -/
theorem collected_eq {batch : List (String × Artifact)}
    {results : List (Nat × Except WriteError Unit)}
    {outcome : String × Artifact → Except WriteError Unit}
    (h : results.Perm (batch.zipIdx.map fun job => (job.2, outcome job.1))) :
    collected results = firstFailure (batch.map outcome) := by
  have hsorted : results.mergeSort (fun a b => decide (a.1 ≤ b.1)) =
      batch.zipIdx.map fun job => (job.2, outcome job.1) := by
    refine List.Perm.eq_of_pairwise ?_ (List.pairwise_mergeSort ?_ ?_ results) ?_
      ((List.mergeSort_perm _ _).trans h)
    · -- a number belongs to one artifact
      intro a b ha hb hle hge
      rw [List.mem_mergeSort, h.mem_iff] at ha
      obtain ⟨⟨job, number⟩, hjob, rfl⟩ := List.mem_map.1 ha
      obtain ⟨⟨job', number'⟩, hjob', rfl⟩ := List.mem_map.1 hb
      obtain rfl := Nat.le_antisymm (of_decide_eq_true hle) (of_decide_eq_true hge)
      rw [List.mem_zipIdx_iff_getElem?] at hjob hjob'
      obtain rfl := Option.some.inj (hjob.symm.trans hjob')
      rfl
    · intro a b c hab hbc
      exact decide_eq_true (Nat.le_trans (of_decide_eq_true hab) (of_decide_eq_true hbc))
    · intro a b
      simpa using Nat.le_total a.1 b.1
    · have hnumbers := @List.pairwise_le_range' 0 batch.length 1
      rw [← List.zipIdx_map_snd 0 batch, List.pairwise_map] at hnumbers
      exact List.pairwise_map.2 (hnumbers.imp fun hle => decide_eq_true hle)
  rw [collected, hsorted, List.map_map]
  change firstFailure (batch.zipIdx.map (outcome ∘ Prod.fst)) = _
  rw [← List.map_map, List.zipIdx_map_fst]

/-- The first failure is that of the first job that fails. -/
theorem firstFailure_eq_error_iff {batch : List (String × Artifact)}
    {outcome : String × Artifact → Except WriteError Unit} {e : WriteError} :
    firstFailure (batch.map outcome) = .error e ↔
      ∃ before job after, batch = before ++ job :: after ∧
        (∀ other ∈ before, outcome other = .ok ()) ∧
        outcome job = .error e := by
  induction batch with
  | nil => simp [firstFailure]
  | cons first rest ih =>
    rw [List.map_cons]
    cases hfirst : outcome first with
    | error e' =>
      constructor
      · intro h
        cases h
        exact ⟨[], first, rest, rfl, nofun, hfirst⟩
      · rintro ⟨_ | ⟨other, before⟩, job, after, heq, hbefore, hjob⟩
        · obtain ⟨rfl, -⟩ := List.cons.inj heq
          exact hfirst.symm.trans hjob
        · obtain ⟨rfl, -⟩ := List.cons.inj heq
          have hok := hbefore first List.mem_cons_self
          rw [hfirst] at hok
          cases hok
    | ok u =>
      rw [firstFailure, ih]
      constructor
      · rintro ⟨before, job, after, rfl, hbefore, hjob⟩
        exact ⟨first :: before, job, after, rfl, List.forall_mem_cons.2 ⟨hfirst, hbefore⟩, hjob⟩
      · rintro ⟨_ | ⟨other, before⟩, job, after, heq, hbefore, hjob⟩
        · obtain ⟨rfl, -⟩ := List.cons.inj heq
          rw [hfirst] at hjob
          cases hjob
        · obtain ⟨-, rfl⟩ := List.cons.inj heq
          exact ⟨before, job, after, rfl, (List.forall_mem_cons.1 hbefore).2, hjob⟩

/-- If anything is a directory, the root is one. -/
theorem kind?_nil_of_dir {place : List String} (h : fs.kind? place = some .dir) :
    fs.kind? [] = some .dir := by
  induction place using List.reverseRecOn with
  | nil => exact h
  | append_singleton above name ih =>
    exact ih (kind?_above (by rw [h]; exact Option.some_ne_none _))

theorem kind?_start (hwork : fs.isDirAt fs.work = true) (path : String) :
    fs.kind? (fs.start path) = some .dir := by
  have hdir := isDirAt_iff.1 hwork
  unfold start
  split
  · exact kind?_nil_of_dir hdir
  · exact hdir

/-- A job on its own fails exactly if the tree refuses it. -/
theorem alone_eq {job : String × Artifact} (hplain : Path.IsPlain (jobPath job))
    (hbase : fs.kind? (fs.start (jobPath job)) = some .dir) :
    fs.alone job = attempt (fs.writeRefusal (jobPath job)) := by
  obtain ⟨fs', hrun, -⟩ := @run_writeArtifact fs (jobPath job) job.1 job.2 rfl hplain hbase
  rw [alone, hrun]

theorem attempt_eq_ok_iff {ε : Type} {outcome : Option ε} :
    attempt outcome = .ok () ↔ outcome = none := by
  cases outcome <;> simp [attempt]

/-- A file is written only where no directory is. -/
theorem kind?_target_ne_dir {path : String} (h : fs.writeRefusal path = none) :
    fs.kind? (fs.target path) ≠ some .dir := by
  intro hdir
  have hfile := Option.map_eq_none_iff.1 (Option.or_eq_none_iff.1 h).2
  unfold fileRefusal at hfile
  split at hfile
  · cases hfile
  · cases hfile
  · rw [if_pos (.inr hdir)] at hfile
    cases hfile

/-- The second file system is the first one after a batch: each artifact against which there is no
reason is written. -/
def Served (fs fs' : FileSystem) (batch : List (String × Artifact)) : Prop :=
  Edited fs fs' (fun place => ∃ job ∈ batch, fs.OpenedFor (jobPath job) place)
    (fun place found => ∃ job ∈ batch,
      Writes (fs.writeRefusal (jobPath job)) (fs.target (jobPath job))
      job.2.text.toUTF8 place found)

/-- Any order of the writes serves the batch. -/
theorem exists_served {batch : List (String × Artifact)} {order : List ((String × Artifact) × Nat)}
    (hwork : fs.isDirAt fs.work = true) (hplain : ∀ job ∈ batch, Path.IsPlain (jobPath job))
    (hapart : batch.Pairwise fun job other =>
      Apart (fs.target (jobPath job)) (fs.target (jobPath other)))
    (horder : order.Perm batch.zipIdx) :
    ∃ fs', (disk.writeEach order).run fs = (order.map fun job => (job.2, fs.alone job.1), fs') ∧
      Served fs fs' batch := by
  have hjobs : order.map Prod.fst |>.Perm batch := by
    have hmap := horder.map Prod.fst
    rwa [List.zipIdx_map_fst] at hmap
  have hmem : ∀ job ∈ order, job.1 ∈ batch := fun job hjob =>
    hjobs.mem_iff.1 (List.mem_map_of_mem hjob)
  have hapartAt : order.Pairwise fun job other =>
      Apart (fs.target (jobPath job.1)) (fs.target (jobPath other.1)) := by
    rw [← hjobs.pairwise_iff Apart.symm, List.pairwise_map] at hapart
    exact hapart
  obtain ⟨fs', hrun, hedited⟩ := writeEach_eq order (fun job hjob => hplain job.1 (hmem job hjob))
    (fun job _ => kind?_start hwork _) hapartAt
  have hresults : order.map (fun job => (job.2, attempt (fs.writeRefusal (jobPath job.1)))) =
      order.map fun job => (job.2, fs.alone job.1) :=
    List.map_congr_left fun job hjob => by
      rw [alone_eq (hplain job.1 (hmem job hjob)) (kind?_start hwork _)]
  -- what holds of an artifact with its number is a matter of the artifact
  have hnumbered (p : String × Artifact → Prop) :
      (∃ job ∈ batch, p job) ↔ ∃ job ∈ order, p job.1 := by
    constructor
    · rintro ⟨job, hjob, hp⟩
      obtain ⟨numbered, hnumbered, rfl⟩ := List.mem_map.1 (hjobs.mem_iff.2 hjob)
      exact ⟨numbered, hnumbered, hp⟩
    · rintro ⟨job, hjob, hp⟩
      exact ⟨job.1, hmem job hjob, hp⟩
  exact ⟨fs', hresults ▸ hrun, hedited.congr (fun place => hnumbered _) fun place content =>
    hnumbered _⟩

namespace Served

variable {batch : List (String × Artifact)} {place : List String} {content : ByteArray}

/-- A batch leaves a file for each job that could be done on its own. -/
theorem file_of_alone (h : Served fs fs' batch) (hwork : fs.isDirAt fs.work = true)
    {job : String × Artifact} (hjob : job ∈ batch) (hplain : Path.IsPlain (jobPath job))
    (halone : fs.alone job = .ok ()) :
    fs'.kind? (fs.target (jobPath job)) = some (.file job.2.text.toUTF8) := by
  rw [alone_eq hplain (kind?_start hwork _), attempt_eq_ok_iff] at halone
  exact h.file _ _ ⟨job, hjob, halone, rfl, rfl⟩

/-- A directory is made where nothing was or a directory. -/
theorem file_iff (h : Served fs fs' batch)
    (hplace : ∀ job ∈ batch, fs.writeRefusal (jobPath job) = none →
      place ≠ fs.target (jobPath job)) :
    fs'.kind? place = some (.file content) ↔ fs.kind? place = some (.file content) := by
  by_cases hopened : ∃ job ∈ batch, fs.OpenedFor (jobPath job) place
  · rw [h.dir place hopened]
    obtain ⟨job, -, hopened⟩ := hopened
    obtain hnone | hdir := kind?_of_openedFor hopened
    · simp [hnone]
    · simp [hdir]
  · rw [h.kept place hopened]
    rintro found ⟨job, hjob, hnone, rfl, -⟩
    exact hplace job hjob hnone rfl

/-- Directories stay directories. -/
theorem dir_of_dir (h : Served fs fs' batch) (hdir : fs.kind? place = some .dir) :
    fs'.kind? place = some .dir := by
  by_cases hopened : ∃ job ∈ batch, fs.OpenedFor (jobPath job) place
  · exact h.dir place hopened
  · rw [h.kept place hopened, hdir]
    rintro found ⟨job, -, hnone, rfl, -⟩
    exact kind?_target_ne_dir hnone hdir

end Served

/-- **A batch may be written in any order.** The paths are plain, and none of them leads to the file
of another one or to a place above it. Then whatever the order of the writes, the result and what is
at each place are those of the batch in its own order; each artifact whose write succeeds alone is
there with its text; no other file changes, and every directory stays one; and the error, if there
is one, is that of the first artifact of the batch whose write fails alone. -/
theorem writeBatch_unordered {batch : List (String × Artifact)}
    {order : List ((String × Artifact) × Nat)} (hwork : fs.isDirAt fs.work = true)
    (hplain : ∀ job ∈ batch, Path.IsPlain (jobPath job)) (hapart : batch.Pairwise fun job other =>
      Apart (fs.target (jobPath job)) (fs.target (jobPath other)))
    (horder : order.Perm batch.zipIdx) :
    let unordered := (disk.writeEach order).run fs
    let ordered := (disk.writeBatch batch).run fs
    collected unordered.1 = ordered.1 ∧ (∀ place, unordered.2.kind? place = ordered.2.kind? place) ∧
    (∀ job ∈ batch, fs.alone job = .ok () →
      unordered.2.kind? (fs.target (jobPath job)) = some (.file job.2.text.toUTF8)) ∧
    (∀ place content, (∀ job ∈ batch, fs.alone job = .ok () → place ≠ fs.target (jobPath job)) →
      (unordered.2.kind? place = some (.file content) ↔ fs.kind? place = some (.file content))) ∧
    (∀ place, fs.kind? place = some .dir → unordered.2.kind? place = some .dir) ∧
    ∀ e, ordered.1 = .error e ↔ ∃ before job after, batch = before ++ job :: after ∧
      (∀ other ∈ before, fs.alone other = .ok ()) ∧ fs.alone job = .error e := by
  intro unordered ordered
  obtain ⟨fs', hrun, hserved⟩ := exists_served hwork hplain hapart horder
  obtain ⟨fs'', hrun', hserved'⟩ := exists_served hwork hplain hapart (List.Perm.refl batch.zipIdx)
  have halone : ∀ job ∈ batch, fs.alone job = attempt (fs.writeRefusal (jobPath job)) :=
    fun job hjob => alone_eq (hplain job hjob) (kind?_start hwork _)
  have hbatch :
      (batch.zipIdx.map fun job => (job.2, fs.alone job.1)).map Prod.snd = batch.map fs.alone := by
    calc
      _ = (batch.zipIdx.map Prod.fst).map fs.alone := by simp only [List.map_map, Function.comp_def]
      _ = batch.map fs.alone := by rw [List.zipIdx_map_fst]
  have hunordered : unordered = (order.map fun job => (job.2, fs.alone job.1), fs') := hrun
  have hordered : ordered = (firstFailure (batch.map fs.alone), fs'') :=
    (run_writeBatch batch fs 0).trans (by rw [hrun', hbatch])
  rw [hunordered, hordered]
  refine ⟨collected_eq (horder.map _), ?_, ?_, ?_, ?_, fun e => firstFailure_eq_error_iff⟩
  · exact hserved.kind?_eq hserved' (fun _ => Iff.rfl) fun _ _ => Iff.rfl
  · exact fun job hjob => hserved.file_of_alone hwork hjob (hplain job hjob)
  · intro place content hplace
    refine hserved.file_iff fun job hjob hnone => hplace job hjob ?_
    rw [halone job hjob, attempt_eq_ok_iff, hnone]
  · exact fun place => hserved.dir_of_dir

/-- A working directory with a file in it. -/
def withFile : FileSystem := ⟨.dir [("work", .dir [("kept", .file "old".toUTF8)])], ["work"]⟩

/-- Two artifacts that share a directory, and between them one whose directory has the name of a
file. -/
def threeJobs : List (String × Artifact) :=
  [("out", ⟨"a/x.js", "x"⟩), ("kept", ⟨"y.js", "y"⟩), ("out", ⟨"a/z.md", "z"⟩)]

/-- Two artifacts written in one order and in the other leave one tree. -/
theorem writeBatch_unordered_backwards :
    let ran := (disk.writeEach threeJobs.zipIdx.reverse).run withFile
    collected ran.1 = .error ⟨"kept", .alreadyExists⟩ ∧
      ran.2.kind? ["work", "out", "a", "x.js"] = some (.file "x".toUTF8) ∧
      ran.2.kind? ["work", "out", "a", "z.md"] = some (.file "z".toUTF8) ∧
      ran.2.kind? ["work", "kept"] = some (.file "old".toUTF8) := by
  intro ran
  obtain ⟨hresult, -, hwritten, hfile, -, -⟩ := writeBatch_unordered
    (by decide +kernel : withFile.isDirAt withFile.work = true)
    (by unfold Path.IsPlain; decide +kernel : ∀ job ∈ threeJobs, Path.IsPlain (jobPath job))
    (by unfold Apart; decide +kernel)
    (List.reverse_perm threeJobs.zipIdx)
  refine ⟨?_, ?_, ?_, ?_⟩
  · rw [show collected ran.1 = _ from hresult]
    decide +kernel
  · exact hwritten ("out", ⟨"a/x.js", "x"⟩) (by decide +kernel) (by decide +kernel)
  · exact hwritten ("out", ⟨"a/z.md", "z"⟩) (by decide +kernel) (by decide +kernel)
  · exact (hfile ["work", "kept"] _ (by decide +kernel)).2 rfl

end FileSystem

end BuilderApi
