import KOs.Fs.Create
import Mathlib.Data.List.TakeWhile
import Mathlib.Data.List.Find

namespace KOs.Fs

open KOs.Common KOs.Data List

variable {vfs : Vfs}

def OpenDirectory (vfs : Vfs) (d : Nat) : Prop :=
  ∃ inode, (vfs.dentry d).inode = some inode ∧ inode.isDirectory = true ∧ inode.isMountpoint = false

variable {cwd : Path}

theorem lookupEnter_directory (directory : OpenDirectory vfs cwd.dentry) :
    lookupEnter vfs cwd = .ok .directory := by
  obtain ⟨inode, here, isDirectory, unmounted⟩ := directory
  simp [lookupEnter, here, isDirectory, unmounted]

theorem lookupEnter_open (entered : lookupEnter vfs cwd = .ok .directory) : OpenDirectory vfs cwd.dentry := by
  rw [lookupEnter] at entered
  split at entered
  · contradiction
  next inode here =>
    refine ⟨inode, here, ?_⟩
    split at entered
    · contradiction
    next isDirectory =>
      split at entered
      · split at entered <;> cases entered
      next unmounted => simpa using And.intro isDirectory unmounted

variable {walk : Walk}
variable {inode : Inode} {next : Option Path} {last path : Name} {wd : Nat}

theorem lookupFinish_open (here : walk.cwd = some cwd)
    (found : (vfs.dentry cwd.dentry).inode = some inode) (unmounted : inode.isMountpoint = false) :
    lookupFinish vfs walk = .ok (some cwd) := by
  simp [lookupFinish, here, Vfs.inodeOf, found, unmounted]

theorem takeWhile_plain {segment : Name} (plain : directorySeparator ∉ segment) :
    segment.takeWhile (· != directorySeparator) = segment ∧
    segment.dropWhile (· != directorySeparator) = [] := by
  have all : ∀ c ∈ segment, (c != directorySeparator) = true := by
    intro c mem
    exact bne_iff_ne.mpr fun same => plain (same ▸ mem)
  exact ⟨takeWhile_eq_self_iff.mpr all, dropWhile_eq_nil_iff.mpr all⟩

theorem head_plain {segment : Name} (plain : directorySeparator ∉ segment) :
    segment.head? ≠ some directorySeparator :=
  fun head => plain (mem_of_mem_head? head)

theorem settles_segment {segment : Name} (directory : OpenDirectory vfs cwd.dentry)
    (nonempty : segment ≠ []) (plain : directorySeparator ∉ segment)
    (stepped : lookupSegment vfs cwd segment = .ok next) :
    LookupSettles vfs { path := segment, cwd := some cwd, finished := false }
      (.ok { path := [], cwd := next, finished := true }) := by
  refine .turns (by simp [lookupContinues, nonempty]) ?_ (.leaves (by simp [lookupContinues]))
  obtain ⟨taken, rest⟩ := takeWhile_plain plain
  rw [lookupTurn_directory (lookupEnter_directory directory), taken, rest, stepped]
  rfl

theorem MountTree.vfsLookup_segment (mounts : MountTree vfs) {segment : Name}
    (directory : OpenDirectory vfs cwd.dentry) (nonempty : segment ≠ []) (plain : directorySeparator ∉ segment)
    (stepped : lookupSegment vfs cwd segment = .ok next) :
    vfsLookup vfs (some cwd) segment = lookupFinish vfs { path := [], cwd := next, finished := true } := by
  have settles := settles_segment directory nonempty plain stepped
  rw [← lookupStart_relative vfs (head_plain plain)] at settles
  rw [mounts.vfsLookup_eq settles]
  rfl

theorem lookupSegment_child (vfs : Vfs) (cwd : Path) {segment : Name} (nonempty : segment ≠ [])
    (notDot : segment ≠ [dot]) (notDotDot : segment ≠ [dot, dot]) :
    lookupSegment vfs cwd segment = .ok (lookupChild vfs cwd segment) := by
  simp [lookupSegment, nonempty, notDot, notDotDot]

theorem MountTree.absent_segment (mounts : MountTree vfs) {segment : Name} (directory : OpenDirectory vfs cwd.dentry)
    (nonempty : segment ≠ []) (plain : directorySeparator ∉ segment)
    (absent : vfsLookup vfs (some cwd) segment = .ok none) :
    segment ≠ [dot] ∧ segment ≠ [dot, dot] ∧ lookupChild vfs cwd segment = none := by
  have stays : ∀ up, lookupSegment vfs cwd segment ≠ .ok (some up) := by
    intro up stepped
    rw [mounts.vfsLookup_segment directory nonempty plain stepped] at absent
    have nowhere := lookupFinish_none absent
    contradiction
  have notDot : segment ≠ [dot] := by
    rintro rfl
    exact stays cwd rfl
  have notDotDot : segment ≠ [dot, dot] := by
    rintro rfl
    have settles := mounts.settles (some cwd) [dot, dot]
    obtain ⟨walk, looped, _⟩ := bind_returns absent
    cases climbed : lookupUp vfs cwd with
    | ok up => exact stays up (by simp [lookupSegment, climbed])
    | error fault =>
      -- a climb that fails is a lookup that does not return
      rw [looped, lookupStart_relative vfs (head_plain plain)] at settles
      have fails : LookupSettles vfs { path := [dot, dot], cwd := some cwd, finished := false } (.error fault) := by
        refine .fails rfl ?_
        obtain ⟨taken, rest⟩ := takeWhile_plain plain
        rw [lookupTurn_directory (lookupEnter_directory directory), taken, rest]
        simp [lookupSegment, climbed]
      have clash := settles.unique fails
      contradiction
  refine ⟨notDot, notDotDot, ?_⟩
  have stepped := lookupSegment_child vfs cwd nonempty notDot notDotDot
  cases child : lookupChild vfs cwd segment with
  | none => rfl
  | some up => exact absurd (stepped.trans (by rw [child])) (stays up)

/-- `vfs_lookup` takes the segment for a dentry of this name. -/
structure TakenFor (last segment : Name) : Prop where
  nonempty : segment ≠ []
  notDot : segment ≠ [dot]
  notDotDot : segment ≠ [dot, dot]
  bucket : bucketOf segment = bucketOf last
  starts : segment.isPrefixOf last = true

section Grown

variable (wd : Nat) (last : Name) (inode : Inode)
variable {d : Nat} {segment : Name}

theorem Live.old (live : Live vfs d) : d ≠ vfs.fresh := live.1.ne

theorem Tree.filed_old (tree : Tree vfs) {c b : Nat} (before : d < vfs.fresh) (mem : c ∈ (vfs.dentry d).childrenTab b) :
    c ≠ vfs.fresh :=
  (tree.children _ before c ((tree.filed _ before _ c).mp mem).1).1.old

theorem inodeOf_grow (live : Live vfs d) : (vfs.grow wd last inode).inodeOf d = vfs.inodeOf d := by
  rw [Vfs.inodeOf, Vfs.inodeOf, grow_inode live.old]

theorem lookupEnter_grow (live : Live vfs cwd.dentry) :
    lookupEnter (vfs.grow wd last inode) cwd = lookupEnter vfs cwd := by
  rw [lookupEnter, lookupEnter, grow_inode live.old]
  rfl

theorem lookupClimb_grow (tree : Tree vfs) (cwd : Path) :
    lookupClimb (vfs.grow wd last inode) cwd = lookupClimb vfs cwd := by
  cases mounted : (vfs.mount cwd.mount).mountpoint with
  | none => simp [lookupClimb, Vfs.grow, mounted]
  | some mountpoint =>
    have same := inodeOf_grow wd last inode (tree.mountpoints _ _ mounted)
    have mounted' : ((vfs.grow wd last inode).mount cwd.mount).mountpoint = some mountpoint := mounted
    simp only [lookupClimb, mounted, mounted', same]

theorem lookupUp_grow (tree : Tree vfs) (live : Live vfs cwd.dentry) :
    lookupUp (vfs.grow wd last inode) cwd = lookupUp vfs cwd := by
  have climbs : ∀ cwd next, Live vfs cwd.dentry → lookupClimb vfs cwd = .ok next → Live vfs next.dentry :=
    fun _ _ _ turned => tree.lookupClimb_live turned
  have looped : whileLoop (fun cwd => ((vfs.grow wd last inode).dentry cwd.dentry).parent.isNone &&
        cwd.mount != (vfs.grow wd last inode).rootMount)
      (lookupClimb _) Fault.unfinished
      ((vfs.grow wd last inode).mountCount + 2) cwd =
    whileLoop (fun cwd => (vfs.dentry cwd.dentry).parent.isNone && cwd.mount != vfs.rootMount)
      (lookupClimb vfs) Fault.unfinished (vfs.mountCount + 2) cwd :=
    whileLoop_congr (fun cwd => Live vfs cwd.dentry) _ live (fun cwd live => by rw [grow_parent live.old]; rfl)
      (fun cwd _ _ => lookupClimb_grow wd last inode tree cwd)
      fun cwd next live _ turned => climbs cwd next live turned
  rw [lookupUp, lookupUp, looped]
  cases top : whileLoop (fun cwd => (vfs.dentry cwd.dentry).parent.isNone && cwd.mount != vfs.rootMount)
      (lookupClimb vfs) Fault.unfinished _ cwd with
  | error _ => rfl
  | ok up =>
    have inside : Live vfs up.dentry :=
      whileLoop_preserves (fun cwd => Live vfs cwd.dentry) top live
        fun cwd next live _ turned => climbs cwd next live turned
    simp only [ok_bind]
    rw [grow_parent inside.old]

theorem lookupChild_grow (tree : Tree vfs) (live : Live vfs cwd.dentry)
    (clear : cwd.dentry = wd → bucketOf segment = bucketOf last → segment.isPrefixOf last = false) :
    lookupChild (vfs.grow wd last inode) cwd segment = lookupChild vfs cwd segment := by
  have names : ∀ child ∈ (vfs.dentry cwd.dentry).childrenTab (bucketOf segment),
      segment.isPrefixOf ((vfs.grow wd last inode).dentry child).name = segment.isPrefixOf (vfs.dentry child).name := by
    intro child mem
    rw [grow_name (tree.filed_old live.1 mem)]
  rw [lookupChild, lookupChild]
  congr 1
  by_cases here : cwd.dentry = wd
  · have old : wd ≠ vfs.fresh := here ▸ live.old
    rw [here] at names ⊢
    rw [grow_childrenTab old]
    split
    next bucket =>
      rw [find?_cons, grow_new]
      simp only [newDentry]
      rw [clear here bucket]
      exact find?_congr names
    · exact find?_congr names
  · rw [grow_other live.old here]
    exact find?_congr names

theorem lookupSegment_grow (tree : Tree vfs) (live : Live vfs cwd.dentry) (free : cwd.dentry = wd → ¬ TakenFor last segment) :
    lookupSegment (vfs.grow wd last inode) cwd segment = lookupSegment vfs cwd segment := by
  rw [lookupSegment, lookupSegment, lookupUp_grow wd last _ tree live]
  by_cases nonempty : segment = []
  · rw [if_pos nonempty, if_pos nonempty]
  by_cases notDot : segment = [dot]
  · rw [if_neg nonempty, if_neg nonempty, if_pos notDot, if_pos notDot]
  by_cases notDotDot : segment = [dot, dot]
  · simp only [if_pos notDotDot]
  rw [lookupChild_grow wd last _ tree live]
  intro here bucket
  by_contra starts
  exact free here ⟨nonempty, notDot, notDotDot, bucket, Bool.not_eq_false _ ▸ starts⟩

end Grown

theorem lookupFinish_grow (wd : Nat) (last : Name) (inode : Inode) (live : WalkLive vfs walk) :
    lookupFinish (vfs.grow wd last inode) walk = lookupFinish vfs walk := by
  cases here : walk.cwd with
  | none => simp only [lookupFinish, here]
  | some cwd =>
    simp only [lookupFinish, here, inodeOf_grow wd last _ (live cwd here)]
    rfl

/-- The segment that a walk is at is taken for the name, in its directory. -/
def Diverts (vfs : Vfs) (wd : Nat) (last : Name) (walk : Walk) : Prop :=
  ∃ cwd, walk.cwd = some cwd ∧ cwd.dentry = wd ∧ OpenDirectory vfs wd ∧
    TakenFor last (walk.path.takeWhile (· != directorySeparator))

theorem lookupTurn_grow (wd : Nat) (last : Name) (inode : Inode) (tree : Tree vfs) (live : WalkLive vfs walk)
    (free : ¬ Diverts vfs wd last walk) : lookupTurn (vfs.grow wd last inode) walk = lookupTurn vfs walk := by
  obtain ⟨path, cwd, finished⟩ := walk
  cases cwd with
  | none => rfl
  | some cwd =>
    have inside := live cwd rfl
    have enters := lookupEnter_grow wd last inode inside
    cases entered : lookupEnter vfs cwd with
    | error => rw [lookupTurn_fails entered, lookupTurn_fails (enters.trans entered)]
    | ok entry =>
      cases entry with
      | notDirectory => rw [lookupTurn_notDirectory entered, lookupTurn_notDirectory (enters.trans entered)]
      | submount => rw [lookupTurn_submount entered, lookupTurn_submount (enters.trans entered)]
      | directory =>
        rw [lookupTurn_directory entered, lookupTurn_directory (enters.trans entered), lookupSegment_grow _ _ _ tree inside]
        intro here taken
        exact free ⟨cwd, rfl, here, here ▸ lookupEnter_open entered, taken⟩

theorem Diverts.turn (diverts : Diverts vfs wd last walk) (live : WalkLive vfs walk) (inode : Inode) :
    ∃ cwd, walk.cwd = some cwd ∧ cwd.dentry = wd ∧ lookupTurn (vfs.grow wd last inode) walk =
      .ok { path := (walk.path.dropWhile (· != directorySeparator)).drop 1, cwd := some { cwd with dentry := vfs.fresh }
            finished := (walk.path.dropWhile (· != directorySeparator)).isEmpty } := by
  obtain ⟨path, _, finished⟩ := walk
  obtain ⟨cwd, rfl, rfl, directory, taken⟩ := diverts
  have inside := live cwd rfl
  refine ⟨cwd, rfl, rfl, ?_⟩
  rw [lookupTurn_directory ((lookupEnter_grow _ _ _ inside).trans (lookupEnter_directory directory)),
    lookupSegment_child _ _ taken.nonempty taken.notDot taken.notDotDot, lookupChild, grow_childrenTab inside.old,
    if_pos taken.bucket, find?_cons, grow_new]
  have starts := taken.starts
  simp only [newDentry, starts]
  rfl

/-- The walk comes to the directory with a rest of the path that is taken for the name, and takes no segment before it
for it. -/
inductive Arrives (vfs : Vfs) (wd : Path) (last : Name) : Walk → Prop where
  | taken {walk : Walk} (enters : lookupContinues walk = true) (here : walk.cwd = some wd)
      (diverts : Diverts vfs wd.dentry last walk)
      (ends : (walk.path.dropWhile (· != directorySeparator)).drop 1 = []) : Arrives vfs wd last walk
  | turns {walk next : Walk} (enters : lookupContinues walk = true) (free : ¬ Diverts vfs wd.dentry last walk)
      (ran : lookupTurn vfs walk = .ok next) (rest : Arrives vfs wd last next) : Arrives vfs wd last walk

section Created

variable {wd : Path}

theorem finish_new (unmounted : inode.isMountpoint = false) (here : walk.cwd = some { cwd with dentry := vfs.fresh }) :
    lookupFinish (vfs.grow wd.dentry last inode) walk = .ok (some { cwd with dentry := vfs.fresh }) :=
  lookupFinish_open here (by rw [grow_new]) unmounted

theorem Arrives.settles (arrives : Arrives vfs wd last walk) (tree : Tree vfs) (live : WalkLive vfs walk) (inode : Inode) :
    ∃ final, LookupSettles (vfs.grow wd.dentry last inode) walk (.ok final) ∧
      final.cwd = some { wd with dentry := vfs.fresh } := by
  induction arrives with
  | taken enters here diverts ends =>
    obtain ⟨cwd, same, _, turn⟩ := diverts.turn live inode
    cases here.symm.trans same
    exact ⟨_, .turns enters turn (.leaves (by simp [lookupContinues, ends])), rfl⟩
  | turns enters free ran _ ih =>
    obtain ⟨final, settles, reached⟩ := ih (tree.lookupTurn_live live ran)
    exact ⟨final, .turns enters ((lookupTurn_grow _ _ inode tree live free).trans ran) settles, reached⟩

theorem arrives_of_settles (tree : Tree vfs) (unmounted : inode.isMountpoint = false) (regular : inode.isDirectory = false)
    {final : Walk} (settles : LookupSettles (vfs.grow wd.dentry last inode) walk (.ok final)) (live : WalkLive vfs walk)
    (found : lookupFinish (vfs.grow wd.dentry last inode) final = .ok (some { wd with dentry := vfs.fresh })) :
    Arrives vfs wd last walk := by
  generalize finished : Except.ok _ = result at settles
  induction settles with
  | leaves =>
    cases finished
    rw [lookupFinish_grow _ _ _ live] at found
    exact absurd rfl (tree.lookupFinish_live live found).old
  | fails => contradiction
  | @turns walk next _ enters ran rest ih =>
    subst finished
    by_cases diverts : Diverts vfs wd.dentry last walk
    · obtain ⟨cwd, here, same, turn⟩ := diverts.turn live inode
      rw [turn] at ran
      cases ran
      by_cases ends : (walk.path.dropWhile (· != directorySeparator)).drop 1 = []
      · cases rest.unique (.leaves (by simp [lookupContinues, ends]))
        rw [finish_new unmounted rfl] at found
        injection found with found
        injection found with found
        injection found with mount
        refine .taken enters (here.trans ?_) diverts ends
        change some (Path.mk cwd.mount cwd.dentry) = _
        rw [mount, same]
      · -- a regular file is not searched
        have stopped : lookupTurn (vfs.grow wd.dentry last inode)
            { path := (walk.path.dropWhile (· != directorySeparator)).drop 1
              cwd := some { cwd with dentry := vfs.fresh }
              finished := (walk.path.dropWhile (· != directorySeparator)).isEmpty } = .ok _ :=
          lookupTurn_notDirectory (by simp [lookupEnter, grow_new, regular])
        have more : (walk.path.dropWhile (· != directorySeparator)).isEmpty = false := by
          rw [isEmpty_eq_false_iff]
          intro none
          rw [none] at ends
          exact ends rfl
        have enters' := isEmpty_eq_false_iff.mpr ends
        cases rest.unique (.turns (by simp only [lookupContinues, more, enters']; rfl) stopped (.leaves (by simp [lookupContinues])))
        cases found
    · rw [lookupTurn_grow _ _ inode tree live diverts] at ran
      exact .turns enters diverts ran (ih (tree.lookupTurn_live live ran) rfl)

end Created

end KOs.Fs
