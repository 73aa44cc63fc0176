import KOs.Fs.Vfs

namespace KOs.Fs

open KOs.Common KOs.Data List

variable {vfs : Vfs}

/-- No mount is below itself, and what is mounted on is a directory. -/
structure MountTree (vfs : Vfs) : Prop where
  depth : ∃ depth : Nat → Nat, (∀ mount, depth mount ≤ vfs.mountCount) ∧
    ∀ mount mountpoint, (vfs.mount mount).mountpoint = some mountpoint →
      depth mountpoint.mount < depth mount
  directories : ∀ d inode, (vfs.dentry d).inode = some inode → inode.isMountpoint = true →
    inode.isDirectory = true

variable {cwd : Path} {path : Name}

variable {mount : Nat} {next : Walk} {start : Option Path}

theorem lookupEnter_submount {root : Path} (entered : lookupEnter vfs cwd = .ok (.submount root)) :
    ∃ mount, getMount vfs cwd = some mount ∧ root = vfs.mntRoot mount := by
  rw [lookupEnter] at entered
  split at entered
  · contradiction
  · split at entered
    · cases entered
    · split at entered
      · split at entered
        · contradiction
        next mount found =>
          cases entered
          exact ⟨mount, found, rfl⟩
      · cases entered

theorem lookupEnter_mountpoint (tree : MountTree vfs) {inode : Inode}
    (here : (vfs.dentry cwd.dentry).inode = some inode) (mountpoint : inode.isMountpoint = true)
    (found : getMount vfs cwd = some mount) :
    lookupEnter vfs cwd = .ok (.submount (vfs.mntRoot mount)) := by
  have directory := tree.directories _ _ here mountpoint
  simp [lookupEnter, here, directory, mountpoint, found]

section Turn

variable {finished : Bool}

theorem lookupTurn_fails {fault : Fault} (entered : lookupEnter vfs cwd = .error fault) :
    lookupTurn vfs { path, cwd := some cwd, finished } = .error fault := by
  simp only [lookupTurn, entered]
  rfl

theorem lookupTurn_notDirectory (entered : lookupEnter vfs cwd = .ok .notDirectory) :
    lookupTurn vfs { path, cwd := some cwd, finished } = .ok { path, cwd := none, finished } := by
  simp only [lookupTurn, entered]
  rfl

theorem lookupTurn_submount {root : Path} (entered : lookupEnter vfs cwd = .ok (.submount root)) :
    lookupTurn vfs { path, cwd := some cwd, finished } = .ok { path, cwd := some root, finished } := by
  simp only [lookupTurn, entered]
  rfl

theorem lookupTurn_directory (entered : lookupEnter vfs cwd = .ok .directory) :
    lookupTurn vfs { path, cwd := some cwd, finished } =
      (lookupSegment vfs cwd (path.takeWhile (· != directorySeparator))).map (fun cwd =>
        { path := (path.dropWhile (· != directorySeparator)).drop 1, cwd,
          finished := (path.dropWhile (· != directorySeparator)).isEmpty }) := by
  simp only [lookupTurn, entered]
  cases lookupSegment vfs cwd (path.takeWhile (· != directorySeparator)) <;> rfl

end Turn

variable {walk : Walk}

theorem lookupTurn_cases (here : walk.cwd = some cwd) (ran : lookupTurn vfs walk = .ok next) :
    (lookupEnter vfs cwd = .ok .notDirectory ∧ next = { walk with cwd := none }) ∨
    (∃ root, lookupEnter vfs cwd = .ok (.submount root) ∧ next = { walk with cwd := some root }) ∨
    (lookupEnter vfs cwd = .ok .directory ∧ ∃ cwd',
      lookupSegment vfs cwd (walk.path.takeWhile (· != directorySeparator)) = .ok cwd' ∧
      next = { path := (walk.path.dropWhile (· != directorySeparator)).drop 1, cwd := cwd',
               finished := (walk.path.dropWhile (· != directorySeparator)).isEmpty }) := by
  obtain ⟨path, _, finished⟩ := walk
  cases here
  cases entered : lookupEnter vfs cwd with
  | error =>
    rw [lookupTurn_fails entered] at ran
    contradiction
  | ok entry =>
    cases entry with
    | notDirectory =>
      rw [lookupTurn_notDirectory entered] at ran
      cases ran
      exact .inl ⟨rfl, rfl⟩
    | submount root =>
      rw [lookupTurn_submount entered] at ran
      cases ran
      exact .inr (.inl ⟨root, rfl, rfl⟩)
    | directory =>
      rw [lookupTurn_directory entered] at ran
      cases stepped : lookupSegment vfs cwd (path.takeWhile (· != directorySeparator)) with
      | error =>
        rw [stepped] at ran
        contradiction
      | ok cwd' =>
        rw [stepped] at ran
        cases ran
        exact .inr (.inr ⟨rfl, cwd', rfl, rfl⟩)

theorem lookupContinues_cwd (continues : lookupContinues walk = true) :
    ∃ cwd, walk.cwd = some cwd ∧ walk.finished = false ∧ walk.path ≠ [] := by
  simp only [lookupContinues, Bool.and_eq_true, Bool.not_eq_true', isEmpty_eq_false_iff] at continues
  obtain ⟨⟨unfinished, path⟩, somewhere⟩ := continues
  obtain ⟨cwd, here⟩ := Option.isSome_iff_exists.mp somewhere
  exact ⟨cwd, here, unfinished, path⟩

abbrev LookupSettles (vfs : Vfs) : Walk → Except Fault Walk → Prop :=
  Settles lookupContinues (lookupTurn vfs)

/-- Mounts still to be entered count less than the segments that are left. -/
def lookupMeasure (vfs : Vfs) (depth : Nat → Nat) (walk : Walk) : Nat :=
  match walk.cwd, walk.finished with
  | some cwd, false => walk.path.length * (vfs.mountCount + 1) + (vfs.mountCount - depth cwd.mount) + 1
  | _, _ => 0

theorem segment_shorter (nonempty : path ≠ []) :
    ((path.dropWhile (· != directorySeparator)).drop 1).length + 1 ≤ path.length := by
  have shorter := (dropWhile_suffix (l := path) (· != directorySeparator)).length_le
  have pos := length_pos_iff.mpr nonempty
  rw [length_drop]
  omega

theorem lookupMeasure_decreases {depth : Nat → Nat} (bounded : ∀ mount, depth mount ≤ vfs.mountCount)
    (deeper : ∀ mount mountpoint, (vfs.mount mount).mountpoint = some mountpoint →
      depth mountpoint.mount < depth mount) (continues : lookupContinues walk = true)
    (ran : lookupTurn vfs walk = .ok next) :
    lookupMeasure vfs depth next < lookupMeasure vfs depth walk := by
  obtain ⟨cwd, here, unfinished, nonempty⟩ := lookupContinues_cwd continues
  have before : lookupMeasure vfs depth walk =
      walk.path.length * (vfs.mountCount + 1) + (vfs.mountCount - depth cwd.mount) + 1 := by
    simp only [lookupMeasure, here, unfinished]
  rcases lookupTurn_cases here ran with ⟨_, rfl⟩ | ⟨root, entered, rfl⟩ | ⟨_, _, _, rfl⟩
  · rw [before]
    exact Nat.succ_pos _
  · obtain ⟨mount, found, rfl⟩ := lookupEnter_submount entered
    have below := deeper mount cwd (beq_iff_eq.mp (find?_some (p := fun m => (vfs.mount m).mountpoint == some cwd) found))
    have bound := bounded mount
    rw [before]
    simp only [lookupMeasure, unfinished, Vfs.mntRoot]
    omega
  · have shorter := segment_shorter nonempty
    have scaled := Nat.mul_le_mul_right (vfs.mountCount + 1) shorter
    rw [before]
    simp only [lookupMeasure]
    split
    · rw [Nat.succ_mul] at scaled
      omega
    · omega

theorem MountTree.settles (tree : MountTree vfs) (start : Option Path) (path : Name) :
    LookupSettles vfs (lookupStart vfs start path)
      (whileLoop lookupContinues (lookupTurn vfs) .unfinished (lookupBound vfs path) (lookupStart vfs start path)) := by
  obtain ⟨depth, bounded, deeper⟩ := tree.depth
  refine whileLoop_settles _ ?_
    fun walk next continues ran => lookupMeasure_decreases bounded deeper continues ran
  have length : (lookupStart vfs start path).path.length ≤ path.length := by
    simp only [lookupStart]
    split <;> split <;> simp
  have scaled := Nat.mul_le_mul_right (vfs.mountCount + 1) length
  rw [lookupBound, Nat.succ_mul]
  simp only [lookupMeasure]
  split <;> omega

variable {result : Except Fault Walk}

theorem MountTree.vfsLookup_eq (tree : MountTree vfs)
    (settles : LookupSettles vfs (lookupStart vfs start path) result) :
    vfsLookup vfs start path = result.bind (lookupFinish vfs) := by
  rw [vfsLookup, (tree.settles _ path).unique settles]
  rfl

/-- The walk along the first part, seen as a walk along both. -/
def Walk.extend (rest : Name) (walk : Walk) : Walk where
  path := if walk.finished then rest else walk.path ++ directorySeparator :: rest
  cwd := walk.cwd
  finished := false

theorem takeWhile_separator (path rest : Name) :
    (path ++ directorySeparator :: rest).takeWhile (· != directorySeparator) =
      path.takeWhile (· != directorySeparator) := by
  induction path with
  | nil => simp
  | cons _ _ ih =>
    simp only [cons_append, takeWhile_cons, ih]

theorem dropWhile_separator (path rest : Name) :
    (path ++ directorySeparator :: rest).dropWhile (· != directorySeparator) =
      path.dropWhile (· != directorySeparator) ++ directorySeparator :: rest := by
  induction path with
  | nil => simp
  | cons _ _ ih =>
    simp only [cons_append, dropWhile_cons, ih]
    split <;> rfl

theorem lookupTurn_extend (rest : Name) (continues : lookupContinues walk = true) :
    lookupTurn vfs (walk.extend rest) = (lookupTurn vfs walk).map (Walk.extend rest) := by
  obtain ⟨cwd, here, unfinished, _⟩ := lookupContinues_cwd continues
  obtain ⟨path, _, _⟩ := walk
  cases here
  cases unfinished
  have extended : Walk.extend rest { path, cwd := some cwd, finished := false } =
      { path := path ++ directorySeparator :: rest, cwd := some cwd, finished := false } := rfl
  rw [extended]
  cases entered : lookupEnter vfs cwd with
  | error =>
    rw [lookupTurn_fails entered, lookupTurn_fails entered]
    rfl
  | ok entry =>
    cases entry with
    | notDirectory =>
      rw [lookupTurn_notDirectory entered, lookupTurn_notDirectory entered]
      rfl
    | submount =>
      rw [lookupTurn_submount entered, lookupTurn_submount entered]
      rfl
    | directory =>
      rw [lookupTurn_directory entered, lookupTurn_directory entered, takeWhile_separator, dropWhile_separator]
      cases lookupSegment vfs cwd (path.takeWhile (· != directorySeparator)) with
      | error => rfl
      | ok =>
        -- the first part may end here, without the separator that follows it
        cases path.dropWhile (· != directorySeparator) <;> rfl

theorem extend_continues (rest : Name) (continues : lookupContinues walk = true) :
    lookupContinues (walk.extend rest) = true := by
  obtain ⟨cwd, here, unfinished, _⟩ := lookupContinues_cwd continues
  simp [lookupContinues, Walk.extend, here, unfinished]

/-- Where the walk along the first part ends, the walk along the whole path goes on. -/
theorem settles_extend {last : Walk} (rest : Name) (settles : LookupSettles vfs walk (.ok last))
    (continued : LookupSettles vfs (last.extend rest) result) :
    LookupSettles vfs (walk.extend rest) result := by
  generalize finished : Except.ok last = outcome at settles
  induction settles with
  | leaves =>
    cases finished
    exact continued
  | turns enters ran _ ih =>
    refine .turns (extend_continues rest enters) ?_ (ih finished)
    rw [lookupTurn_extend rest enters, ran]
    rfl
  | fails => contradiction

theorem settles_separator (nonempty : path ≠ [])
    (settles : LookupSettles vfs { path, cwd := some cwd, finished := false } result) :
    ∃ result', LookupSettles vfs { path := directorySeparator :: path, cwd := some cwd, finished := false } result' ∧
      result'.bind (lookupFinish vfs) = result.bind (lookupFinish vfs) := by
  generalize started : ({ path, cwd := some cwd, finished := false } : Walk) = walk at settles
  have enters' : ∀ cwd, lookupContinues
      { path := directorySeparator :: path, cwd := some cwd, finished := false } = true := fun _ => rfl
  induction settles generalizing cwd with
  | leaves leaves =>
    subst started
    simp [lookupContinues, nonempty] at leaves
  | @turns _ next _ enters ran rest ih =>
    subst started
    rcases lookupTurn_cases rfl ran with ⟨entered, rfl⟩ | ⟨root, entered, rfl⟩ | ⟨entered, _, _, _⟩
    · have stopped := Settles.unique rest (.leaves (by simp [lookupContinues]))
      subst stopped
      exact ⟨_, .turns (enters' cwd) (lookupTurn_notDirectory entered) (.leaves (by simp [lookupContinues])), rfl⟩
    · obtain ⟨result', settles', same⟩ := ih rfl
      exact ⟨result', .turns (enters' cwd) (lookupTurn_submount entered) settles', same⟩
    · refine ⟨_, .turns (enters' cwd) ?_ (.turns enters ran rest), rfl⟩
      rw [lookupTurn_directory entered]
      rfl
  | @fails _ _ enters failed =>
    subst started
    cases entered : lookupEnter vfs cwd with
    | error =>
      rw [lookupTurn_fails entered] at failed
      cases failed
      exact ⟨_, .fails (enters' cwd) (lookupTurn_fails entered), rfl⟩
    | ok entry =>
      cases entry with
      | notDirectory =>
        rw [lookupTurn_notDirectory entered] at failed
        contradiction
      | submount =>
        rw [lookupTurn_submount entered] at failed
        contradiction
      | directory =>
        refine ⟨_, .turns (enters' cwd) ?_ (.fails enters failed), rfl⟩
        rw [lookupTurn_directory entered]
        rfl

theorem settles_finish (tree : MountTree vfs) {entered : Path} (here : walk.cwd = some cwd)
    (nonempty : path ≠ []) (finish : lookupFinish vfs walk = .ok (some entered))
    (settles : LookupSettles vfs { path, cwd := some entered, finished := false } result) :
    LookupSettles vfs { path, cwd := some cwd, finished := false } result := by
  simp only [lookupFinish, here, Vfs.inodeOf] at finish
  cases found : (vfs.dentry cwd.dentry).inode with
  | none =>
    rw [found] at finish
    contradiction
  | some =>
    rw [found] at finish
    simp only [ok_bind, pure_ok] at finish
    split at finish
    next mountpoint =>
      split at finish
      · contradiction
      next mount mounted =>
        cases finish
        refine .turns (by simp [lookupContinues, nonempty]) ?_ settles
        exact lookupTurn_submount (lookupEnter_mountpoint tree found mountpoint mounted)
    · cases finish
      exact settles

theorem lookupFinish_none (finish : lookupFinish vfs walk = .ok none) : walk.cwd = none := by
  cases here : walk.cwd with
  | none => rfl
  | some =>
    simp only [lookupFinish, here, bind, Except.bind, pure, Except.pure] at finish
    split at finish
    · contradiction
    · split at finish
      · split at finish <;> cases finish
      · cases finish

theorem lookupStart_relative (vfs : Vfs) {start : Path} (relative : path.head? ≠ some directorySeparator) :
    lookupStart vfs (some start) path = { path, cwd := some start, finished := false } :=
  if_neg relative

theorem lookupStart_extend (rest : Name) (nonempty : path ≠ []) :
    lookupStart vfs start (path ++ directorySeparator :: rest) = (lookupStart vfs start path).extend rest := by
  obtain ⟨c, _, rfl⟩ := exists_cons_of_ne_nil nonempty
  simp only [lookupStart, cons_append, head?_cons, tail_cons, Option.some.injEq]
  cases start <;> by_cases absolute : c = directorySeparator <;> simp [absolute, Walk.extend]

theorem extend_stopped (rest : Name) (stopped : lookupContinues walk = false) (here : walk.cwd = some cwd) :
    walk.extend rest = { path := rest, cwd := some cwd, finished := false } ∨
    walk.extend rest = { path := directorySeparator :: rest, cwd := some cwd, finished := false } := by
  obtain ⟨path, _, finished⟩ := walk
  cases here
  cases finished with
  | true => exact .inl rfl
  | false =>
    simp only [lookupContinues, Bool.not_false, Bool.true_and, Option.isSome_some, Bool.and_true,
      Bool.not_eq_false', List.isEmpty_iff] at stopped
    subst stopped
    exact .inr rfl

variable {s : Option Path} {p : Name}

namespace MountTree

variable (tree : MountTree vfs)
include tree

theorem vfsLookup_join (q : Name) (nonempty : p ≠ [])
    (settles : LookupSettles vfs ((lookupStart vfs s p).extend q) result) :
    vfsLookup vfs s (p ++ directorySeparator :: q) = result.bind (lookupFinish vfs) := by
  rw [← lookupStart_extend q nonempty] at settles
  exact tree.vfsLookup_eq settles

theorem vfsLookup_ok {found : Option Path} (ran : vfsLookup vfs s p = .ok found) :
    ∃ walk, LookupSettles vfs (lookupStart vfs s p) (.ok walk) ∧ lookupFinish vfs walk = .ok found := by
  have settles := tree.settles s p
  obtain ⟨walk, looped, finish⟩ := bind_returns ran
  rw [looped] at settles
  exact ⟨walk, settles, finish⟩

theorem lookup_absent (q : Name) (nonempty : p ≠ []) (absent : vfsLookup vfs s p = .ok none) :
    vfsLookup vfs s (p ++ directorySeparator :: q) = .ok none := by
  obtain ⟨walk, first, finish⟩ := tree.vfsLookup_ok absent
  have nowhere := lookupFinish_none finish
  have stops : LookupSettles vfs (walk.extend q) (.ok (walk.extend q)) :=
    .leaves (by simp [lookupContinues, Walk.extend, nowhere])
  rw [tree.vfsLookup_join q nonempty (settles_extend q first stops)]
  simp [Except.bind, lookupFinish, Walk.extend, nowhere]

theorem lookup_found {q : Name} {r : Path} (pNonempty : p ≠ []) (qNonempty : q ≠ [])
    (relative : q.head? ≠ some directorySeparator) (found : vfsLookup vfs s p = .ok (some r)) :
    vfsLookup vfs s (p ++ directorySeparator :: q) = vfsLookup vfs (some r) q := by
  obtain ⟨walk, first, finish⟩ := tree.vfsLookup_ok found
  obtain ⟨cwd, here⟩ : ∃ cwd, walk.cwd = some cwd := by
    cases here : walk.cwd with
    | none => simp [lookupFinish, here] at finish
    | some cwd => exact ⟨cwd, rfl⟩
  have second := tree.settles (some r) q
  rw [tree.vfsLookup_eq second]
  generalize whileLoop _ _ Fault.unfinished _
    (lookupStart vfs (some r) q) = result at second
  rw [lookupStart_relative vfs relative] at second
  have onward := settles_finish tree here qNonempty finish second
  rcases extend_stopped q first.condition_false here with same | separator
  · exact tree.vfsLookup_join q pNonempty (settles_extend q first (same ▸ onward))
  · obtain ⟨result', settles', same⟩ := settles_separator qNonempty onward
    rw [tree.vfsLookup_join q pNonempty (settles_extend q first (separator ▸ settles')), same]

end MountTree

end KOs.Fs
