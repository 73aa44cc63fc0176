import KOs.Fs.Tree

namespace KOs.Fs

open KOs.Common KOs.Data

variable {vfs : Vfs}

/-- The tree with a new dentry, the first one in its chain. -/
def Vfs.grow (vfs : Vfs) (wd : Nat) (last : Name) (inode : Inode) : Vfs :=
  { vfs with
    dentry := fun e =>
      if e = vfs.fresh then { newDentry last with inode := some inode, parent := some wd }
      else if e = wd then
        { vfs.dentry wd with
          childrenTab := fun b =>
            if b = bucketOf last then vfs.fresh :: (vfs.dentry wd).childrenTab b
            else (vfs.dentry wd).childrenTab b
          childrenList := vfs.fresh :: (vfs.dentry wd).childrenList }
      else vfs.dentry e
    fresh := vfs.fresh + 1
    globalInoCount := wadd vfs.globalInoCount 1 }

variable {e : Nat}
variable {last : Name} {inode : Inode}

section Grow

variable {wd : Nat}

theorem grow_new : (vfs.grow wd last inode).dentry vfs.fresh =
    { newDentry last with inode := some inode, parent := some wd } :=
  if_pos rfl

section

variable (old : e ≠ vfs.fresh)
include old

theorem grow_other (other : e ≠ wd) : (vfs.grow wd last inode).dentry e = vfs.dentry e := by
  simp only [Vfs.grow, if_neg old, if_neg other]

theorem grow_name : ((vfs.grow wd last inode).dentry e).name = (vfs.dentry e).name := by
  simp only [Vfs.grow, if_neg old]
  split
  next same =>
    rw [same]
  · rfl

theorem grow_inode : ((vfs.grow wd last inode).dentry e).inode = (vfs.dentry e).inode := by
  simp only [Vfs.grow, if_neg old]
  split
  next same =>
    rw [same]
  · rfl

theorem grow_parent : ((vfs.grow wd last inode).dentry e).parent = (vfs.dentry e).parent := by
  simp only [Vfs.grow, if_neg old]
  split
  next same =>
    rw [same]
  · rfl

end

theorem grow_childrenList (old : wd ≠ vfs.fresh) :
    ((vfs.grow wd last inode).dentry wd).childrenList = vfs.fresh :: (vfs.dentry wd).childrenList := by
  simp only [Vfs.grow, if_neg old, if_pos]

theorem grow_childrenTab (old : wd ≠ vfs.fresh) (b : Nat) :
    ((vfs.grow wd last inode).dentry wd).childrenTab b =
      if b = bucketOf last then vfs.fresh :: (vfs.dentry wd).childrenTab b
      else (vfs.dentry wd).childrenTab b := by
  simp only [Vfs.grow, if_neg old, if_pos]

end Grow

variable {root : Nat} {mountpoint : Path} {after base : Vfs}

variable {mode : Nat} {ino : Nat} {wd : Path}

theorem ramfsCreateInternal_flags (made : ramfsCreateInternal ino mode = some inode) :
    inode.isMountpoint = false := by
  rw [ramfsCreateInternal] at made
  split at made
  · cases made
    exact (by decide : (0 &&& inodeFlagMountpoint != 0) = false)
  · split at made
    · cases made
      exact (by decide : (inodeFlagDirectory &&& inodeFlagMountpoint != 0) = false)
    · contradiction

theorem inodeCreate_flags {ops : InodeOps} (made : inodeCreate ops ino mode = some inode) :
    inode.isMountpoint = false ∧ (sIsReg mode = true → inode.isDirectory = false) := by
  cases ops with
  | ramfs =>
    refine ⟨ramfsCreateInternal_flags made, fun regular => ?_⟩
    rw [inodeCreate, ramfsCreateInternal, if_pos regular] at made
    cases made
    exact (by decide : (0 &&& inodeFlagDirectory != 0) = false)
  | devfsRoot => contradiction

variable {out : Created}

theorem createIn_cases (old : wd.dentry ≠ vfs.fresh) (ran : createIn vfs wd last mode = .ok (after, out)) :
    (after = dentryAlloc vfs last ∧ out = { ret := -einval, path := none }) ∨
    ∃ inode, (inode.isMountpoint = false ∧ (sIsReg mode = true → inode.isDirectory = false)) ∧
      after = vfs.grow wd.dentry last inode ∧ out = { ret := 0, path := some { wd with dentry := vfs.fresh } } := by
  obtain ⟨directory, _, ran⟩ := bind_returns ran
  split at ran
  · cases ran
    exact .inl ⟨rfl, rfl⟩
  next inode made =>
    split at ran
    · contradiction
    · cases ran
      refine .inr ⟨inode, inodeCreate_flags made, ?_, rfl⟩
      simp only [dentryActivate, dentryAlloc, Vfs.setDentry, Vfs.grow, newDentry, if_pos, Vfs.mk.injEq, and_true]
      funext e
      by_cases new : e = vfs.fresh
      · simp [new, Ne.symm old]
      · by_cases same : e = wd.dentry
        · simp [same, old]
        · simp [new, same]

/-- Where the new dentry would go, and under which name. -/
def Splits (vfs : Vfs) (start : Path) (pathname : Name) (wd : Path) (last : Name) : Prop :=
  getPathWd vfs start pathname = .ok (some (wd, last))

variable {start : Path} {pathname : Name}

theorem Splits.cases (splits : Splits vfs start pathname wd last) :
    last = pathname.drop (lastSegment pathname) ∧
    ((lastSegment pathname = 0 ∧ wd = start) ∨ (lastSegment pathname ≠ 0 ∧
      vfsLookup vfs (some start) (pathname.take (lastSegment pathname - 1)) = .ok (some wd))) := by
  rw [Splits, getPathWd] at splits
  split at splits
  next differ =>
    have separated : lastSegment pathname ≠ 0 := by
      intro zero
      rw [zero] at differ
      exact differ rfl
    obtain ⟨found, looked, splits⟩ := bind_returns splits
    cases found with
    | none => cases splits
    | some =>
      cases splits
      exact ⟨rfl, .inr ⟨separated, looked⟩⟩
  next same =>
    cases splits
    refine ⟨rfl, .inl ⟨?_, rfl⟩⟩
    rcases (lastSegment_spec pathname).1 with zero | ⟨_, within, _⟩
    · exact zero
    · have length := congrArg List.length (not_not.mp same)
      rw [List.length_drop] at length
      omega

theorem Splits.live (tree : Tree vfs) (live : Live vfs start.dentry)
    (splits : Splits vfs start pathname wd last) : Live vfs wd.dentry := by
  obtain ⟨_, ⟨_, rfl⟩ | ⟨_, looked⟩⟩ := splits.cases
  · exact live
  · exact tree.vfsLookup_live live looked

theorem vfsCreate_cases (tree : Tree vfs) (live : Live vfs start.dentry)
    (ran : vfsCreate vfs start pathname mode = .ok (after, out)) :
    (after = vfs ∧ out.ret ≠ 0) ∨
    (∃ last, after = dentryAlloc vfs last ∧ out.ret ≠ 0) ∨
    ∃ wd last inode, Splits vfs start pathname wd last ∧ pathname ≠ [] ∧ Live vfs wd.dentry ∧
      vfsLookup vfs (some wd) last = .ok none ∧ inode.isMountpoint = false ∧
      (sIsReg mode = true → inode.isDirectory = false) ∧ after = vfs.grow wd.dentry last inode ∧
      out = { ret := 0, path := some { wd with dentry := vfs.fresh } } := by
  obtain ⟨place, splits, ran⟩ := bind_returns ran
  cases place with
  | none =>
    cases ran
    exact .inl ⟨rfl, by decide⟩
  | some place =>
    obtain ⟨wd, last⟩ := place
    simp only at ran
    split at ran
    · cases ran
      exact .inl ⟨rfl, by decide⟩
    next length =>
      obtain ⟨found, looked, ran⟩ := bind_returns ran
      cases found with
      | some =>
        cases ran
        exact .inl ⟨rfl, (by decide : -eexist ≠ 0)⟩
      | none =>
        have inside := Splits.live tree live splits
        rcases createIn_cases (inside.1.ne) ran with ⟨rfl, rfl⟩ | ⟨inode, ⟨unmounted, regular⟩, rfl, rfl⟩
        · exact .inr (.inl ⟨last, rfl, by decide⟩)
        · exact .inr (.inr ⟨wd, last, inode, splits, fun empty => length (by rw [empty]; rfl), inside,
            looked, unmounted, regular, rfl, rfl⟩)

variable {value : Dentry} {d : Nat}

section Kept

theorem Tree.not_listed (tree : Tree vfs) (inside : d < vfs.fresh) :
    vfs.fresh ∉ (vfs.dentry d).childrenList := by
  intro mem
  exact lt_irrefl _ (tree.children d inside _ mem).1.1

variable {wd : Nat}

theorem Live.grow (live : Live vfs e) :
    Live (vfs.grow wd last inode) e := by
  refine ⟨Nat.lt_succ_of_lt live.1, ?_⟩
  rw [grow_inode (live.1.ne)]
  exact live.2

theorem mem_grow_childrenList (old : wd ≠ vfs.fresh) (inside : d < vfs.fresh + 1) (c : Nat) :
    c ∈ ((vfs.grow wd last inode).dentry d).childrenList ↔
      (d < vfs.fresh ∧ c ∈ (vfs.dentry d).childrenList) ∨ (d = wd ∧ c = vfs.fresh) := by
  by_cases new : d = vfs.fresh
  · subst new
    simp [grow_new, newDentry, Ne.symm old]
  · have before : d < vfs.fresh := by omega
    by_cases same : d = wd
    · subst same
      simp [grow_childrenList old, before, or_comm]
    · simp [grow_other new same, before, same]

theorem Tree.grow (tree : Tree vfs) (directory : Live vfs wd) (last : Name) (inode : Inode) :
    Tree (vfs.grow wd last inode) := by
  have old : wd ≠ vfs.fresh := directory.1.ne
  have newLive : Live (vfs.grow wd last inode) vfs.fresh := ⟨Nat.lt_succ_self _, by rw [grow_new]; rfl⟩
  exact {
    filed := by
      intro d inside b c
      by_cases new : d = vfs.fresh
      · subst new
        simp [grow_new, newDentry]
      · have before : d < vfs.fresh := (Nat.le_of_lt_succ inside).lt_of_ne new
        have absent := tree.not_listed before
        by_cases same : d = wd
        · subst same
          rw [grow_childrenTab old, grow_childrenList old]
          by_cases added : c = vfs.fresh
          · subst added
            rw [grow_new]
            have untabled : vfs.fresh ∉ (vfs.dentry d).childrenTab b :=
              fun mem => absent ((tree.filed d before b _).mp mem).1
            by_cases bucket : b = bucketOf last
            · simp [bucket, newDentry]
            · simp [bucket, untabled, newDentry, Ne.symm _]
          · rw [grow_name added]
            have filed := tree.filed d before b c
            split <;> simp [added, filed]
        · rw [grow_other new same, tree.filed d before b c]
          refine and_congr_right fun mem => ?_
          have older : c ≠ vfs.fresh := fun added => absent (added ▸ mem)
          rw [grow_name older]
    children := by
      intro d inside c mem
      rcases (mem_grow_childrenList old inside c).mp mem with ⟨before, mem⟩ | ⟨rfl, rfl⟩
      · obtain ⟨live, parent⟩ := tree.children d before c mem
        exact ⟨live.grow, by rw [grow_parent (live.1.ne)]; exact parent⟩
      · exact ⟨newLive, by rw [grow_new]⟩
    nodup := by
      intro d inside
      by_cases new : d = vfs.fresh
      · subst new
        simp [grow_new, newDentry]
      · have before : d < vfs.fresh := (Nat.le_of_lt_succ inside).lt_of_ne new
        by_cases same : d = wd
        · subst same
          rw [grow_childrenList old]
          exact List.nodup_cons.mpr ⟨tree.not_listed before, tree.nodup d before⟩
        · rw [grow_other new same]
          exact tree.nodup d before
    parents := by
      intro c d inside parent
      by_cases new : c = vfs.fresh
      · subst new
        rw [grow_new] at parent
        cases parent
        exact directory.grow
      · have before : c < vfs.fresh := (Nat.le_of_lt_succ inside).lt_of_ne new
        rw [grow_parent new] at parent
        exact (tree.parents c d before parent).grow
    roots := fun mount => (tree.roots _).grow
    mountpoints := fun mount mountpoint mounted => (tree.mountpoints _ _ mounted).grow }

theorem MountTree.grow (tree : MountTree vfs) (unmounted : inode.isMountpoint = false) :
    MountTree (vfs.grow wd last inode) := by
  refine ⟨tree.depth, ?_⟩
  intro d inode' here mountpoint
  by_cases new : d = vfs.fresh
  · subst new
    rw [grow_new] at here
    cases here
    rw [unmounted] at mountpoint
    contradiction
  · rw [grow_inode new] at here
    exact tree.directories d _ here mountpoint

theorem Tree.extend (tree : Tree vfs) (more : vfs.fresh ≤ after.fresh)
    (name : ∀ e < vfs.fresh, (after.dentry e).name = (vfs.dentry e).name)
    (inode : ∀ e < vfs.fresh, (vfs.dentry e).inode.isSome = true → (after.dentry e).inode.isSome = true)
    (parent : ∀ e < vfs.fresh, (after.dentry e).parent = (vfs.dentry e).parent)
    (tab : ∀ e < vfs.fresh, (after.dentry e).childrenTab = (vfs.dentry e).childrenTab)
    (list : ∀ e < vfs.fresh, (after.dentry e).childrenList = (vfs.dentry e).childrenList)
    (fresh : ∀ e, vfs.fresh ≤ e → e < after.fresh → (after.dentry e).parent = none ∧
      (after.dentry e).childrenList = [] ∧ ∀ b, (after.dentry e).childrenTab b = [])
    (roots : ∀ mount, Live after (after.mount mount).root)
    (mountpoints : ∀ mount mountpoint, (after.mount mount).mountpoint = some mountpoint →
      Live after mountpoint.dentry) : Tree after := by
  have live : ∀ e, Live vfs e → Live after e := fun e here =>
    ⟨here.1.trans_le more, inode e here.1 here.2⟩
  refine ⟨?_, ?_, ?_, ?_, roots, mountpoints⟩
  · intro d inside b c
    rcases lt_or_ge d vfs.fresh with before | new
    · rw [tab d before, list d before, tree.filed d before b c]
      refine and_congr_right fun mem => ?_
      rw [name c (tree.children d before c mem).1.1]
    · obtain ⟨_, empty, none⟩ := fresh d new inside
      simp [empty, none]
  · intro d inside c mem
    rcases lt_or_ge d vfs.fresh with before | new
    · rw [list d before] at mem
      obtain ⟨here, above⟩ := tree.children d before c mem
      exact ⟨live c here, by rw [parent c here.1]; exact above⟩
    · rw [(fresh d new inside).2.1] at mem
      contradiction
  · intro d inside
    rcases lt_or_ge d vfs.fresh with before | new
    · rw [list d before]
      exact tree.nodup d before
    · rw [(fresh d new inside).2.1]
      exact List.nodup_nil
  · intro c d inside above
    rcases lt_or_ge c vfs.fresh with before | new
    · rw [parent c before] at above
      exact live d (tree.parents c d before above)
    · rw [(fresh c new inside).1] at above
      contradiction

theorem setDentry_same (d : Nat) (value : Dentry) : (vfs.setDentry d value).dentry d = value := if_pos rfl

theorem setDentry_other (value : Dentry) (other : e ≠ d) :
    (vfs.setDentry d value).dentry e = vfs.dentry e := if_neg other

theorem Live.set (live : Live vfs e) (new : vfs.fresh ≤ d) :
    (e < vfs.fresh + 1 ∧ ((vfs.setDentry d value).dentry e).inode.isSome = true) := by
  have other : e ≠ d := by
    have before := live.1
    omega
  rw [setDentry_other _ other]
  exact ⟨Nat.lt_succ_of_lt live.1, live.2⟩

theorem Tree.alloc (tree : Tree vfs) (parent : value.parent = none) (list : value.childrenList = [])
    (tab : ∀ b, value.childrenTab b = []) (count : Nat) :
    Tree { vfs.setDentry vfs.fresh value with fresh := vfs.fresh + 1, globalInoCount := count } := by
  have other : ∀ e < vfs.fresh, (vfs.setDentry vfs.fresh value).dentry e = vfs.dentry e :=
    fun e before => setDentry_other value (before.ne)
  refine tree.extend (Nat.le_succ _) ?_ ?_ ?_ ?_ ?_ ?_ ?_ ?_
  · exact fun e before => by rw [other e before]
  · exact fun e before here => by rw [other e before]; exact here
  iterate 3
    · exact fun e before => by rw [other e before]
  · intro e new inside
    have same : e = vfs.fresh := by
      have bound : e < vfs.fresh + 1 := inside
      omega
    subst same
    rw [setDentry_same]
    exact ⟨parent, list, tab⟩
  · exact fun mount => (tree.roots _).set le_rfl
  · exact fun mount mountpoint mounted => (tree.mountpoints _ _ mounted).set le_rfl

theorem MountTree.alloc (tree : MountTree vfs)
    (unmounted : ∀ inode, value.inode = some inode → inode.isMountpoint = false) (count : Nat) :
    MountTree { vfs.setDentry vfs.fresh value with fresh := vfs.fresh + 1, globalInoCount := count } := by
  refine ⟨tree.depth, ?_⟩
  intro d inode here mountpoint
  by_cases new : d = vfs.fresh
  · subst new
    rw [setDentry_same] at here
    rw [unmounted _ here] at mountpoint
    contradiction
  · rw [setDentry_other _ new] at here
    exact tree.directories d _ here mountpoint

end Kept

structure FileSystem (vfs : Vfs) : Prop where
  tree : Tree vfs
  mounts : MountTree vfs
  numbered : ∀ mount mountpoint, (vfs.mount mount).mountpoint = some mountpoint →
    mount < vfs.mountCount ∧ mountpoint.mount < vfs.mountCount

theorem rootVfs_fileSystem : FileSystem rootVfs := by
  refine ⟨⟨?_, ?_, ?_, ?_, ?_, ?_⟩, ⟨⟨fun _ => 0, fun _ => Nat.zero_le _, ?_⟩, ?_⟩, ?_⟩
  · intro d _ b c
    simp [rootVfs, newDentry]
  · intro d _ c mem
    simp [rootVfs, newDentry] at mem
  · intro d _
    simp [rootVfs, newDentry]
  · intro c d _ parent
    simp [rootVfs, newDentry] at parent
  · intro _
    exact ⟨Nat.zero_lt_one, rfl⟩
  iterate 2
    · intro _ _ mounted
      simp [rootVfs] at mounted
  · intro d inode here mountpoint
    have made : ramfsCreateInternal 1 (0o040000 ||| 0o755) = some inode := here
    rw [ramfsCreateInternal_flags made] at mountpoint
    contradiction
  · intro _ _ mounted
    simp [rootVfs] at mounted

variable {added : Bool}

theorem vfsMountAdd_cases {mount : Nat} (ran : vfsMountAdd vfs mount mountpoint = .ok (after, added)) :
    after = vfs ∨ ∃ inode marked, (vfs.dentry mountpoint.dentry).inode = some inode ∧
      inode.isDirectory = true ∧ marked.isDirectory = true ∧
      after.dentry = (vfs.setDentry mountpoint.dentry
        { vfs.dentry mountpoint.dentry with inode := some marked }).dentry ∧
      after.fresh = vfs.fresh ∧ after.mountCount = vfs.mountCount ∧
      after.mount = fun m => if m = mount then { vfs.mount m with mountpoint := some mountpoint }
        else vfs.mount m := by
  obtain ⟨inode, here, ran⟩ := bind_returns ran
  have found : (vfs.dentry mountpoint.dentry).inode = some inode := by
    rw [Vfs.inodeOf] at here
    split at here
    next same =>
      cases here
      exact same
    · contradiction
  split at ran
  · cases ran
    exact .inl rfl
  next directory =>
    simp only [Bool.not_eq_true', Bool.not_eq_false] at directory
    split at ran
    · cases ran
      exact .inl rfl
    · cases ran
      refine .inr ⟨inode, _, found, directory, ?_, rfl, rfl, rfl, rfl⟩
      have apart : inodeFlagMountpoint &&& inodeFlagDirectory = 0 := by decide
      simp only [Inode.isDirectory, Nat.and_or_distrib_right, apart, Nat.or_zero] at directory ⊢
      exact directory

theorem FileSystem.ramfsFill (system : FileSystem vfs) :
    FileSystem (ramfsFill vfs).1 ∧ Live (ramfsFill vfs).1 (ramfsFill vfs).2 := by
  refine ⟨⟨system.tree.alloc rfl rfl (fun _ => rfl) _, system.mounts.alloc ?_ _, system.numbered⟩, ?_⟩
  · intro inode made
    have created : ramfsCreateInternal vfs.globalInoCount (0o040000 ||| 0o755) = some inode := made
    exact ramfsCreateInternal_flags created
  · refine ⟨Nat.lt_succ_self _, ?_⟩
    simp only [Fs.ramfsFill, setDentry_same]
    rfl

theorem FileSystem.mountAlloc (system : FileSystem vfs) (live : Live vfs root) :
    FileSystem (mountAlloc vfs root).1 := by
  have mountpoints : ∀ mount mountpoint, ((Fs.mountAlloc vfs root).1.mount mount).mountpoint = some mountpoint →
      (vfs.mount mount).mountpoint = some mountpoint := by
    intro mount mountpoint mounted
    simp only [Fs.mountAlloc] at mounted
    split at mounted
    · contradiction
    · exact mounted
  obtain ⟨depth, bounded, deeper⟩ := system.mounts.depth
  refine ⟨⟨system.tree.filed, system.tree.children, system.tree.nodup, system.tree.parents, ?_, ?_⟩,
    ⟨⟨depth, fun mount => Nat.le_succ_of_le (bounded mount), ?_⟩, system.mounts.directories⟩, ?_⟩
  · intro mount
    simp only [Fs.mountAlloc]
    split
    · exact live
    · exact system.tree.roots mount
  · exact fun mount mountpoint mounted => system.tree.mountpoints mount mountpoint (mountpoints _ _ mounted)
  · exact fun mount mountpoint mounted => deeper mount mountpoint (mountpoints _ _ mounted)
  · intro mount mountpoint mounted
    obtain ⟨first, second⟩ := system.numbered mount mountpoint (mountpoints _ _ mounted)
    exact ⟨Nat.lt_succ_of_lt first, Nat.lt_succ_of_lt second⟩

/-- A new mount of a root, at a path whose dentry becomes a mountpoint. -/
structure Attached (base after : Vfs) (root : Nat) (mountpoint : Path) : Prop where
  fresh : after.fresh = base.fresh
  mountCount : after.mountCount = base.mountCount + 1
  mount : ∀ m, after.mount m =
    if m = base.mountCount then { mountpoint := some mountpoint, root } else base.mount m
  dentry : ∃ marked, marked.isDirectory = true ∧ after.dentry = (base.setDentry mountpoint.dentry
    { base.dentry mountpoint.dentry with inode := some marked }).dentry

theorem attached_of_vfsMountAdd
    (adding : vfsMountAdd (mountAlloc base root).1 base.mountCount mountpoint = .ok (after, added)) :
    after = (mountAlloc base root).1 ∨ Attached base after root mountpoint := by
  rcases vfsMountAdd_cases adding with same | ⟨_, marked, _, _, directory, dentries, fresh, counted, mounts⟩
  · exact .inl same
  · refine .inr ⟨fresh, counted, ?_, marked, directory, dentries⟩
    intro m
    rw [mounts]
    by_cases new : m = base.mountCount
    · simp only [mountAlloc, if_pos new]
    · simp only [mountAlloc, if_neg new]

namespace Attached

section

variable (attached : Attached base after root mountpoint)
include attached

theorem place {m : Nat} {place : Path} (mounted : (after.mount m).mountpoint = some place) :
    (m = base.mountCount ∧ place = mountpoint) ∨ (base.mount m).mountpoint = some place := by
  rw [attached.mount] at mounted
  split at mounted
  next new =>
    exact .inl ⟨new, (Option.some.inj mounted).symm⟩
  · exact .inr mounted

theorem at_dentry (e : Nat) :
    after.dentry e = base.dentry e ∨
      ∃ marked, marked.isDirectory = true ∧ after.dentry e = { base.dentry e with inode := some marked } := by
  obtain ⟨marked, directory, dentries⟩ := attached.dentry
  rw [dentries]
  by_cases same : e = mountpoint.dentry
  · subst same
    exact .inr ⟨marked, directory, setDentry_same _ _⟩
  · exact .inl (setDentry_other _ same)

theorem isSome (found : (base.dentry e).inode.isSome = true) : (after.dentry e).inode.isSome = true := by
  rcases attached.at_dentry e with same | ⟨marked, _, same⟩
  · rw [same]
    exact found
  · rw [same]
    rfl

theorem live (live : Live base e) :
    Live after e :=
  ⟨attached.fresh.symm ▸ live.1, attached.isSome live.2⟩

theorem tree (tree : Tree base) (rootLive : Live base root) (alive : Live base mountpoint.dentry) : Tree after := by
  have shape : ∀ e, ∃ inode, after.dentry e = { base.dentry e with inode } := by
    intro e
    rcases attached.at_dentry e with same | ⟨marked, _, same⟩
    · exact ⟨_, same⟩
    · exact ⟨_, same⟩
  refine tree.extend (attached.fresh.symm.le) ?_ (fun e _ => attached.isSome) ?_ ?_ ?_ ?_ ?_ ?_
  iterate 4
    · intro e _
      obtain ⟨inode, same⟩ := shape e
      rw [same]
  · intro e new inside
    rw [attached.fresh] at inside
    exact absurd inside (not_lt.mpr new)
  · intro m
    apply attached.live
    rw [attached.mount]
    split
    · exact rootLive
    · exact tree.roots m
  · intro m place mounted
    apply attached.live
    rcases attached.place mounted with ⟨_, rfl⟩ | older
    · exact alive
    · exact tree.mountpoints m _ older

theorem mounts (filled : FileSystem base) (numbered : mountpoint.mount < base.mountCount) : MountTree after := by
  obtain ⟨depth, bounded, deeper⟩ := filled.mounts.depth
  refine ⟨⟨fun m => if m = base.mountCount then depth mountpoint.mount + 1 else depth m, ?_, ?_⟩, ?_⟩
  · intro m
    rw [attached.mountCount]
    have bound := bounded mountpoint.mount
    have bound' := bounded m
    simp only
    split <;> omega
  · intro m place mounted
    rcases attached.place mounted with ⟨rfl, rfl⟩ | older
    · simp only [if_neg (numbered.ne), if_pos]
      exact Nat.lt_succ_self _
    · obtain ⟨first, second⟩ := filled.numbered m _ older
      simp only [if_neg (first.ne), if_neg (second.ne)]
      exact deeper m _ older
  · intro e inode found
    rcases attached.at_dentry e with same | ⟨marked, directory, same⟩
    · rw [same] at found
      exact filled.mounts.directories e _ found
    · rw [same] at found
      cases found
      exact fun _ => directory

theorem numbered (filled : FileSystem base) (below : mountpoint.mount < base.mountCount) {m : Nat} {place : Path}
    (mounted : (after.mount m).mountpoint = some place) :
    m < after.mountCount ∧ place.mount < after.mountCount := by
  rw [attached.mountCount]
  rcases attached.place mounted with ⟨rfl, rfl⟩ | older
  · exact ⟨Nat.lt_succ_self _, Nat.lt_succ_of_lt below⟩
  · obtain ⟨first, second⟩ := filled.numbered m _ older
    exact ⟨Nat.lt_succ_of_lt first, Nat.lt_succ_of_lt second⟩

end

end Attached

theorem FileSystem.attach (filled : FileSystem base)
    (rootLive : Live base root) (alive : Live base mountpoint.dentry) (numbered : mountpoint.mount < base.mountCount)
    (adding : vfsMountAdd (Fs.mountAlloc base root).1 base.mountCount mountpoint = .ok (after, added)) :
    FileSystem after := by
  rcases attached_of_vfsMountAdd adding with rfl | attached
  · exact filled.mountAlloc rootLive
  · exact ⟨attached.tree filled.tree rootLive alive, attached.mounts filled numbered,
      fun _ _ => attached.numbered filled numbered⟩

theorem FileSystem.mount (system : FileSystem vfs) {mounted : Option Nat}
    (live : Live vfs mountpoint.dentry) (numbered : mountpoint.mount < vfs.mountCount)
    (ran : vfsMount vfs mountpoint = .ok (after, mounted)) : FileSystem after := by
  obtain ⟨filled, rootLive⟩ := system.ramfsFill
  have alive : Live (Fs.ramfsFill vfs).1 mountpoint.dentry := live.set le_rfl
  obtain ⟨⟨attached, added⟩, adding, ran⟩ := bind_returns ran
  cases ran
  exact filled.attach rootLive alive numbered adding

theorem FileSystem.create (system : FileSystem vfs) (live : Live vfs start.dentry)
    (ran : vfsCreate vfs start pathname mode = .ok (after, out)) : FileSystem after := by
  rcases vfsCreate_cases system.tree live ran with
    ⟨rfl, _⟩ | ⟨last, rfl, _⟩ | ⟨wd, last, inode, _, _, directory, _, unmounted, _, rfl, _⟩
  · exact system
  · refine ⟨system.tree.alloc rfl rfl (fun _ => rfl) _, system.mounts.alloc ?_ _, system.numbered⟩
    intro inode made
    contradiction
  · exact ⟨system.tree.grow directory last _, system.mounts.grow unmounted, system.numbered⟩

inductive FsEvent where
  | create (start : Path) (pathname : Name) (mode : Nat)
  | mount (mountpoint : Path)
deriving DecidableEq, Repr

def FsEvent.path : FsEvent → Path
  | .create start _ _ => start
  | .mount mountpoint => mountpoint

def fileSystems : Machine Vfs FsEvent Fault where
  enabled event vfs :=
    let path := event.path
    decide (path.dentry < vfs.fresh) && (vfs.dentry path.dentry).inode.isSome &&
      decide (path.mount < vfs.mountCount)
  perform event vfs :=
    match event with
    | .create start pathname mode => (vfsCreate vfs start pathname mode).map Prod.fst
    | .mount mountpoint => (vfsMount vfs mountpoint).map Prod.fst

theorem fileSystems_enabled {event : FsEvent} (enabled : fileSystems.enabled event vfs = true) :
    Live vfs event.path.dentry ∧ event.path.mount < vfs.mountCount := by
  simp only [fileSystems, Bool.and_eq_true, decide_eq_true_eq] at enabled
  exact enabled

theorem fileSystems_reaches {allowed : Vfs → FsEvent → Prop}
    (path : fileSystems.Reaches allowed rootVfs after) : FileSystem after := by
  refine path.preserves FileSystem rootVfs_fileSystem ?_
  intro before event after system _ enabled ran
  obtain ⟨live, numbered⟩ := fileSystems_enabled enabled
  cases event with
  | create =>
    obtain ⟨⟨after, out⟩, created, rfl⟩ := map_returns ran
    exact system.create live created
  | mount =>
    obtain ⟨⟨after, mounted⟩, entered, rfl⟩ := map_returns ran
    exact system.mount live numbered entered

end KOs.Fs
