import KOs.Fs.Resolve
import Mathlib.Data.List.Nodup

namespace KOs.Fs

open KOs.Common KOs.Data List Option

variable {vfs : Vfs}

/-- A lookup along two paths joined by a separator is a lookup along the second
one from where the first one ends. -/
theorem lookup_compositional (vfs : Vfs) (tree : MountTree vfs) (s : Option Path) (p q : Name)
    (pNonempty : p ≠ []) (qNonempty : q ≠ []) (relative : q.head? ≠ some directorySeparator) :
    (vfsLookup vfs s p = .ok none → vfsLookup vfs s (p ++ directorySeparator :: q) = .ok none) ∧
    ∀ r, vfsLookup vfs s p = .ok (some r) → vfsLookup vfs s (p ++ directorySeparator :: q) = vfsLookup vfs (some r) q :=
  ⟨tree.lookup_absent q pNonempty, fun _ found => tree.lookup_found pNonempty qNonempty relative found⟩

theorem lookup_compositional_mounted : ∃ vfs, MountTree vfs ∧ vfsLookup vfs (some ⟨0, 0⟩) [109] = .ok (some ⟨1, 2⟩) ∧
    vfsLookup vfs (some ⟨0, 0⟩) [109, 47, 46, 46, 47, 109, 47, 120] = .ok (some ⟨1, 3⟩) := by
  obtain ⟨vfs, reached, mounted, behind⟩ : ∃ vfs, fileSystems.Reaches (fun _ _ => True) rootVfs vfs ∧
      vfsLookup vfs (some ⟨0, 0⟩) [109] = .ok (some ⟨1, 2⟩) ∧
      vfsLookup vfs (some ⟨1, 2⟩) [46, 46, 47, 109, 47, 120] = .ok (some ⟨1, 3⟩) :=
    Machine.run_exists [.create ⟨0, 0⟩ [109] 0o040755, .mount ⟨0, 1⟩, .create ⟨1, 2⟩ [120] 0o100644] (by decide +kernel)
  have tree := (fileSystems_reaches reached).mounts
  have joined := (lookup_compositional vfs tree (some ⟨0, 0⟩) [109] [46, 46, 47, 109, 47, 120]
    (by decide) (by decide) (by decide)).2 _ mounted
  exact ⟨vfs, tree, mounted, joined.trans behind⟩

/-- The lookup of a pathname, before a creation under it, comes to where the creation puts the new dentry. -/
def OnTheWay (vfs : Vfs) (start : Path) (p : Name) : Prop :=
  ∃ wd last, Splits vfs start p wd last ∧ Arrives vfs wd last (lookupStart vfs (some start) p)

variable {last : Name} {inode : Inode} {wd : Path}

theorem vfsLookup_absolute (vfs : Vfs) (start start' : Path) {path : Name}
    (absolute : path.head? = some directorySeparator) :
    vfsLookup vfs (some start) path = vfsLookup vfs (some start') path := by
  simp only [vfsLookup, lookupStart, if_pos absolute]

variable {start start' : Path} {p : Name} {after : Vfs} {mode : Nat} {path : Option Path}

theorem FileSystem.lookup_created (system : FileSystem vfs) (live : Live vfs start.dentry)
    (arrives : Arrives vfs wd last (lookupStart vfs (some start) p)) (unmounted : inode.isMountpoint = false) :
    vfsLookup (vfs.grow wd.dentry last inode) (some start) p = .ok (some { wd with dentry := vfs.fresh }) := by
  obtain ⟨final, settles, here⟩ := arrives.settles system.tree (system.tree.lookupStart_live live p) inode
  rw [(system.mounts.grow unmounted).vfsLookup_eq settles]
  exact finish_new unmounted here

theorem FileSystem.arrives (system : FileSystem vfs) (live : Live vfs start.dentry) (unmounted : inode.isMountpoint = false)
    (regular : inode.isDirectory = false)
    (found : vfsLookup (vfs.grow wd.dentry last inode) (some start) p = .ok (some { wd with dentry := vfs.fresh })) :
    Arrives vfs wd last (lookupStart vfs (some start) p) := by
  obtain ⟨final, settles, finish⟩ := (system.mounts.grow unmounted).vfsLookup_ok found
  exact arrives_of_settles system.tree unmounted regular settles (system.tree.lookupStart_live live p) finish

theorem FileSystem.vfsCreate_made (system : FileSystem vfs) (live : Live vfs start.dentry)
    (ran : vfsCreate vfs start p mode = .ok (after, { ret := 0, path })) :
    ∃ wd last inode, Splits vfs start p wd last ∧ inode.isMountpoint = false ∧
      (sIsReg mode = true → inode.isDirectory = false) ∧ after = vfs.grow wd.dentry last inode ∧
      path = some { wd with dentry := vfs.fresh } := by
  rcases vfsCreate_cases system.tree live ran with
    ⟨_, failed⟩ | ⟨_, _, failed⟩ | ⟨wd, last, inode, splits, _, _, _, unmounted, regular, grown, out⟩
  · contradiction
  · contradiction
  · cases out
    exact ⟨wd, last, inode, splits, unmounted, regular, grown, rfl⟩

/-- Where something can be created, a regular file can. -/
theorem vfsCreate_regular (ran : vfsCreate vfs start p mode = .ok (after, { ret := 0, path })) :
    ∃ after path, vfsCreate vfs start p 0o100000 = .ok (after, { ret := 0, path }) := by
  obtain ⟨place, splits, ran⟩ := bind_returns ran
  cases place with
  | none => cases ran
  | some place =>
    simp only at ran
    split at ran
    · cases ran
    next length =>
      obtain ⟨found, looked, ran⟩ := bind_returns ran
      cases found with
      | some => cases ran
      | none =>
        obtain ⟨directory, here, ran⟩ := bind_returns ran
        simp only [vfsCreate, splits, ok_bind, if_neg length, looked, createIn, here]
        cases ops : directory.ops with
        | devfsRoot =>
          rw [ops] at ran
          cases ran
        | ramfs =>
          split at ran
          · cases ran
          next inode made =>
            have number : inode.ino = (dentryAlloc vfs place.2).globalInoCount := by
              rw [ops, inodeCreate, ramfsCreateInternal] at made
              split at made
              · cases made
                rfl
              · split at made <;> cases made
                rfl
            split at ran
            · contradiction
            next positive =>
              rw [number] at positive
              exact ⟨_, _, if_neg positive⟩

theorem FileSystem.lookup_iff (system : FileSystem vfs) (live : Live vfs start.dentry)
    (ran : vfsCreate vfs start p mode = .ok (after, { ret := 0, path })) :
    (∀ mode after path, vfsCreate vfs start p mode = .ok (after, { ret := 0, path }) →
      vfsLookup after (some start) p = .ok path ∧ path.isSome = true) ↔ OnTheWay vfs start p := by
  constructor
  · intro law
    obtain ⟨after, path, ran⟩ := vfsCreate_regular ran
    have found := law _ _ _ ran
    obtain ⟨wd, last, inode, splits, unmounted, regular, rfl, rfl⟩ := system.vfsCreate_made live ran
    exact ⟨wd, last, splits, system.arrives live unmounted (regular (by decide)) found.1⟩
  · rintro ⟨wd, last, splits, arrives⟩ mode after path ran
    obtain ⟨_, _, inode, again, unmounted, _, rfl, rfl⟩ := system.vfsCreate_made live ran
    cases splits.symm.trans again
    exact ⟨system.lookup_created live arrives unmounted, rfl⟩

theorem MountTree.create_absolute (mounts : MountTree vfs) (start start' : Path) (mode : Nat)
    (absolute : p.head? = some directorySeparator) (notOne : lastSegment p ≠ 1) :
    vfsCreate vfs start p mode = vfsCreate vfs start' p mode := by
  obtain ⟨rest, rfl⟩ := head?_eq_some_iff.mp absolute
  have lookups := vfsLookup_absolute vfs start start' absolute
  rcases (lastSegment_spec (directorySeparator :: rest)).1 with zero | ⟨pos, within, _⟩
  · -- the path is the separator alone, and exists
    have alone : rest = [] := by
      have length := (lastSegment_spec (directorySeparator :: rest)).2 0 (by omega) rfl
      simpa using length
    subst alone
    have exists' : ∀ start, vfsLookup vfs (some start) [directorySeparator] ≠ .ok none := by
      intro start absent
      obtain ⟨walk, stopped, finish⟩ := mounts.vfsLookup_ok absent
      have same := stopped.unique (.leaves rfl)
      cases same
      have nowhere := lookupFinish_none finish
      contradiction
    have split : ∀ start, getPathWd vfs start [directorySeparator] = .ok (some (start, [directorySeparator])) := by
      simp [getPathWd, zero]
    have missing := exists' start'
    simp only [vfsCreate, split, ok_bind]
    rw [lookups]
    cases found : vfsLookup vfs (some start') [directorySeparator] with
    | error => rfl
    | ok found' =>
      cases found' with
      | none => exact absurd found missing
      | some => rfl
  · have head : ((directorySeparator :: rest).take (lastSegment (directorySeparator :: rest) - 1)).head? =
        some directorySeparator := by
      rw [head?_take, if_neg (by omega)]
      rfl
    have shorter : directorySeparator :: rest ≠
        (directorySeparator :: rest).drop (lastSegment (directorySeparator :: rest)) := by
      intro same
      have length := congrArg length same
      rw [length_drop] at length
      omega
    have split : getPathWd vfs start (directorySeparator :: rest) =
        getPathWd vfs start' (directorySeparator :: rest) := by
      rw [getPathWd, getPathWd, if_pos shorter, if_pos shorter, vfsLookup_absolute vfs _ _ head]
    rw [vfsCreate, vfsCreate, split]

theorem create_alone (one : lastSegment p = 1) (mode : Nat)
    (same : vfsLookup vfs (some start') [] = vfsLookup vfs (some start) []) :
    vfsCreate vfs start' p mode = vfsCreate vfs start p mode := by
  have longer : p ≠ p.drop 1 := by
    intro eq
    have length := congrArg length eq
    rcases (lastSegment_spec p).1 with zero | ⟨_, within, _⟩
    · omega
    · rw [length_drop] at length
      omega
  rw [vfsCreate, vfsCreate, getPathWd, getPathWd, one, if_pos longer, if_pos longer, Nat.sub_self, take_zero, same]

/-- A creation in two directories has two results. -/
theorem FileSystem.created_alone (system : FileSystem vfs) (live : Live vfs start.dentry) (live' : Live vfs start'.dentry)
    (one : lastSegment p = 1) (ran : vfsCreate vfs start p mode = .ok (after, { ret := 0, path }))
    (again : vfsCreate vfs start' p mode = .ok (after, { ret := 0, path })) :
    vfsLookup vfs (some start') [] = vfsLookup vfs (some start) [] := by
  obtain ⟨wd, last, inode, splits, _, _, grown, out⟩ := system.vfsCreate_made live ran
  obtain ⟨wd', last', inode', splits', _, _, grown', out'⟩ := system.vfsCreate_made live' again
  have parent := congrArg (fun vfs' : Vfs => (vfs'.dentry vfs.fresh).parent) (grown'.symm.trans grown)
  simp only [grow_new, Option.some.injEq] at parent
  have mount := out'.symm.trans out
  simp only [Option.some.injEq, Path.mk.injEq, and_true] at mount
  have same : wd' = wd := by
    change Path.mk wd'.mount wd'.dentry = _
    rw [mount, parent]
  have looked := splits.cases.2.resolve_left fun none => by omega
  have looked' := splits'.cases.2.resolve_left fun none => by omega
  rw [one] at looked looked'
  exact looked'.2.trans (same ▸ looked.2.symm)

/-- A creation is found again, whatever is created, if and only if the lookup comes to its place.  An absolute
pathname is created in the same way from every start, but for a separator and a name alone: then the start decides. -/
theorem create_then_lookup (vfs : Vfs) (system : FileSystem vfs) (start : Path)
    (live : Live vfs start.dentry) (p : Name) (mode : Nat) :
    (∀ after path, vfsCreate vfs start p mode = .ok (after, { ret := 0, path }) →
      ((∀ mode after path, vfsCreate vfs start p mode = .ok (after, { ret := 0, path }) →
        vfsLookup after (some start) p = .ok path ∧ path.isSome = true) ↔ OnTheWay vfs start p)) ∧
    (p.head? = some directorySeparator → ∀ start',
      (lastSegment p ≠ 1 ∨ vfsLookup vfs (some start') [] = vfsLookup vfs (some start) [] →
        vfsCreate vfs start' p mode = vfsCreate vfs start p mode) ∧
      (∀ after path, vfsCreate vfs start p mode = .ok (after, { ret := 0, path }) → Live vfs start'.dentry →
        vfsCreate vfs start' p mode = vfsCreate vfs start p mode →
        lastSegment p ≠ 1 ∨ vfsLookup vfs (some start') [] = vfsLookup vfs (some start) [])) := by
  refine ⟨fun _ _ ran => system.lookup_iff live ran, fun absolute start' => ⟨fun anchored => ?_, ?_⟩⟩
  · by_cases one : lastSegment p = 1
    · exact create_alone one mode (anchored.resolve_left fun other => other one)
    · exact system.mounts.create_absolute start' start mode absolute one
  · intro after path ran live' same
    by_cases one : lastSegment p = 1
    · exact .inr (system.created_alone live live' one ran (same.trans ran))
    · exact .inl one

theorem create_then_lookup_absolute : ∃ vfs after path,
    vfsCreate vfs ⟨0, 1⟩ [47, 97, 47, 97, 98] 0o100644 = .ok (after, { ret := 0, path := some path }) ∧
    vfsLookup after (some ⟨0, 1⟩) [47, 97, 47, 97, 98] = .ok (some path) ∧
    vfsCreate vfs ⟨0, 0⟩ [47, 97, 47, 97, 98] 0o100644 = .ok (after, { ret := 0, path := some path }) := by
  obtain ⟨vfs, reached, fresh, here, split, first, turn, created⟩ : ∃ vfs,
      fileSystems.Reaches (fun _ _ => True) rootVfs vfs ∧ vfs.fresh = 2 ∧
      (vfs.dentry 1).inode = some { ops := .ramfs, flags := 1, ino := 2, mode := 0o040755, size := 1 } ∧
      getPathWd vfs ⟨0, 1⟩ [47, 97, 47, 97, 98] = .ok (some (⟨0, 1⟩, [97, 98])) ∧
      lookupStart vfs (some ⟨0, 1⟩) [47, 97, 47, 97, 98] = ⟨[97, 47, 97, 98], some ⟨0, 0⟩, false⟩ ∧
      lookupTurn vfs ⟨[97, 47, 97, 98], some ⟨0, 0⟩, false⟩ = .ok ⟨[97, 98], some ⟨0, 1⟩, false⟩ ∧
      (vfsCreate vfs ⟨0, 1⟩ [47, 97, 47, 97, 98] 0o100644).map Prod.snd = .ok { ret := 0, path := some ⟨0, 2⟩ } :=
    Machine.run_exists [.create ⟨0, 0⟩ [97] 0o040755] (by decide +kernel)
  obtain ⟨⟨after, out⟩, made, rfl⟩ := map_returns created
  have directory : OpenDirectory vfs 1 := ⟨_, here, by decide, by decide⟩
  have arrives : Arrives vfs ⟨0, 1⟩ [97, 98] (lookupStart vfs (some ⟨0, 1⟩) [47, 97, 47, 97, 98]) := by
    rw [first]
    refine .turns rfl ?_ turn (.taken rfl rfl ⟨⟨0, 1⟩, rfl, rfl, directory, ?_⟩ rfl)
    · rintro ⟨_, ⟨⟩, other, _⟩
      cases other
    · exact ⟨by decide, by decide, by decide, rfl, by decide⟩
  obtain ⟨law, absolute⟩ := create_then_lookup vfs (fileSystems_reaches reached) ⟨0, 1⟩
    ⟨by rw [fresh]; decide, by rw [here]; rfl⟩ [47, 97, 47, 97, 98] 0o100644
  exact ⟨vfs, after, ⟨0, 2⟩, made, ((law _ _ made).mpr ⟨_, _, split, arrives⟩ _ _ _ made).1,
    ((absolute rfl ⟨0, 0⟩).1 (.inl (by decide))).trans made⟩

/-- With the start in `/d`, `/b` is created in `/d` and not found again; with the
start in the root it is created there. -/
theorem absolute_name_created_in_start : ∃ vfs after other, fileSystems.Reaches (fun _ _ => True) rootVfs vfs ∧
    vfsCreate vfs ⟨0, 1⟩ [47, 98] 0o100644 = .ok (after, { ret := 0, path := some ⟨0, 2⟩ }) ∧
    (after.dentry 2).parent = some 1 ∧ vfsLookup after (some ⟨0, 1⟩) [47, 98] = .ok none ∧
    vfsCreate vfs ⟨0, 0⟩ [47, 98] 0o100644 = .ok (other, { ret := 0, path := some ⟨0, 2⟩ }) ∧
    (other.dentry 2).parent = some 0 := by
  obtain ⟨vfs, reached, first, second⟩ : ∃ vfs, fileSystems.Reaches (fun _ _ => True) rootVfs vfs ∧
      ((vfsCreate vfs ⟨0, 1⟩ [47, 98] 0o100644).map fun result =>
        (result.2, (result.1.dentry 2).parent, vfsLookup result.1 (some ⟨0, 1⟩) [47, 98])) =
        .ok ({ ret := 0, path := some ⟨0, 2⟩ }, some 1, .ok none) ∧
      ((vfsCreate vfs ⟨0, 0⟩ [47, 98] 0o100644).map fun result => (result.2, (result.1.dentry 2).parent)) =
        .ok ({ ret := 0, path := some ⟨0, 2⟩ }, some 0) :=
    Machine.run_exists [.create ⟨0, 0⟩ [100] 0o040755] (by decide +kernel)
  obtain ⟨⟨after, out⟩, created, seen⟩ := map_returns first
  obtain ⟨⟨other, out'⟩, created', seen'⟩ := map_returns second
  simp only [Prod.mk.injEq] at seen seen'
  obtain ⟨rfl, parent, absent⟩ := seen
  obtain ⟨rfl, parent'⟩ := seen'
  exact ⟨vfs, after, other, reached, created, parent, absent, created', parent'⟩

def FsEvent.isCreate : FsEvent → Bool
  | .create _ _ _ => true
  | .mount _ => false

/-- Of two children in a chain, the newer one's name is not the start of the older one's. -/
def Behind (vfs : Vfs) (newer older : Nat) : Prop :=
  directorySeparator ∉ (vfs.dentry newer).name → ¬ (vfs.dentry newer).name.isPrefixOf (vfs.dentry older).name

theorem behind_congr {chain : List Nat} (names : ∀ c ∈ chain, (after.dentry c).name = (vfs.dentry c).name)
    (ordered : chain.Pairwise (Behind vfs)) : chain.Pairwise (Behind after) := by
  refine ordered.imp_of_mem fun newer older behind => ?_
  rw [Behind, names _ newer, names _ older]
  exact behind

structure Named (vfs : Vfs) : Prop where
  unmounted : ∀ d inode, (vfs.dentry d).inode = some inode → inode.isMountpoint = false
  ordered : ∀ d inode, d < vfs.fresh → (vfs.dentry d).inode = some inode → inode.isDirectory = true →
    ∀ b, ((vfs.dentry d).childrenTab b).Pairwise (Behind vfs)

theorem rootVfs_named : Named rootVfs := by
  refine ⟨?_, fun _ _ _ _ _ _ => .nil⟩
  intro d inode here
  have made : ramfsCreateInternal 1 (0o040000 ||| 0o755) = some inode := here
  exact ramfsCreateInternal_flags made

theorem Named.alloc (named : Named vfs) (system : FileSystem vfs) (last : Name) :
    Named (dentryAlloc vfs last) := by
  refine ⟨?_, ?_⟩
  · intro d inode here
    by_cases new : d = vfs.fresh
    · subst new
      rw [dentryAlloc, setDentry_same] at here
      contradiction
    · rw [dentryAlloc, setDentry_other _ new] at here
      exact named.unmounted d _ here
  · intro d inode within here isDirectory b
    by_cases new : d = vfs.fresh
    · subst new
      rw [dentryAlloc, setDentry_same]
      exact .nil
    · have before : d < vfs.fresh := (Nat.le_of_lt_succ within).lt_of_ne new
      rw [dentryAlloc, setDentry_other _ new] at here ⊢
      refine behind_congr (fun c mem => ?_) (named.ordered d inode before here isDirectory b)
      rw [setDentry_other _ (system.tree.filed_old before mem)]

theorem Named.grow (named : Named vfs) (system : FileSystem vfs) (nonempty : last ≠ [])
    (absent : vfsLookup vfs (some wd) last = .ok none) (unmounted : inode.isMountpoint = false) :
    Named (vfs.grow wd.dentry last inode) := by
  refine ⟨?_, ?_⟩
  · intro d inode' here
    by_cases new : d = vfs.fresh
    · subst new
      rw [grow_new] at here
      cases here
      exact unmounted
    · rw [grow_inode new] at here
      exact named.unmounted d _ here
  · intro d inode' within here isDirectory b
    by_cases new : d = vfs.fresh
    · rw [new, grow_new]
      exact .nil
    have before : d < vfs.fresh := (Nat.le_of_lt_succ within).lt_of_ne new
    rw [grow_inode new] at here
    have names : ∀ c ∈ (vfs.dentry d).childrenTab b,
        ((vfs.grow wd.dentry last inode).dentry c).name = (vfs.dentry c).name :=
      fun c mem => grow_name (system.tree.filed_old before mem)
    have kept := behind_congr names (named.ordered d inode' before here isDirectory b)
    by_cases atWd : d = wd.dentry
    · subst atWd
      rw [grow_childrenTab new]
      split
      next bucket =>
        -- the lookup before the creation has found none that starts with the name
        refine pairwise_cons.mpr ⟨fun c mem plain => ?_, kept⟩
        rw [grow_new] at plain ⊢
        obtain ⟨_, _, none⟩ := system.mounts.absent_segment ⟨inode', here, isDirectory, named.unmounted _ _ here⟩
          nonempty plain absent
        rw [lookupChild, map_eq_none_iff, find?_eq_none, ← bucket] at none
        rw [names c mem]
        exact none c mem
      · exact kept
    · rw [grow_other new atWd]
      exact kept

section

variable {d : Nat} (named : Named vfs) (system : FileSystem vfs) (inside : d < vfs.fresh)
  (here : (vfs.dentry d).inode = some inode) (isDirectory : inode.isDirectory = true)
include named system inside here isDirectory

theorem Named.distinct {c c' : Nat} (child : c ∈ (vfs.dentry d).childrenList) (child' : c' ∈ (vfs.dentry d).childrenList)
    (same : (vfs.dentry c).name = (vfs.dentry c').name) (plain : directorySeparator ∉ (vfs.dentry c).name) : c = c' := by
  have chain := named.ordered d inode inside here isDirectory (bucketOf (vfs.dentry c).name)
  have filed := system.tree.filed d inside (bucketOf (vfs.dentry c).name)
  by_contra apart
  have : Std.Symm fun a b => Behind vfs a b ∨ Behind vfs b a := ⟨fun _ _ => Or.symm⟩
  rcases (chain.imp fun behind => Or.inl behind : Pairwise (fun a b => Behind vfs a b ∨ Behind vfs b a) _).forall
    ((filed c).mpr ⟨child, rfl⟩) ((filed c').mpr ⟨child', by rw [same]⟩) apart with behind | behind
  · simpa [same] using behind plain
  · simpa [same] using behind (same ▸ plain)

omit system in
/-- Where the first one that a name is found for has that name, there is no other. -/
theorem Named.first_alone {s : Name} {first c : Nat} (head : ((vfs.dentry d).childrenTab (bucketOf s)).find?
      (fun child => s.isPrefixOf (vfs.dentry child).name) = some first) (name : (vfs.dentry first).name = s)
    (plain : directorySeparator ∉ s) (mem : c ∈ (vfs.dentry d).childrenTab (bucketOf s))
    (starts : s.isPrefixOf (vfs.dentry c).name = true) : c = first := by
  obtain ⟨_, newer, older, chain, before⟩ := find?_eq_some_iff_append.mp head
  have ordered := named.ordered d inode inside here isDirectory (bucketOf s)
  rw [chain] at mem ordered
  rcases mem_append.mp mem with early | late
  · simpa [starts] using before c early
  · rcases mem_cons.mp late with same | later
    · exact same
    · have behind := (pairwise_cons.mp (pairwise_append.mp ordered).2.1).1 c later (name ▸ plain)
      rw [name] at behind
      contradiction

end

variable {pathname : Name} {out : Created}

theorem Named.create (named : Named vfs) (system : FileSystem vfs)
    (live : Live vfs start.dentry) (ran : vfsCreate vfs start pathname mode = .ok (after, out)) : Named after := by
  rcases vfsCreate_cases system.tree live ran with
    ⟨rfl, _⟩ | ⟨last, rfl, _⟩ | ⟨wd, last, inode, splits, nonempty, inside, absent, unmounted, _, rfl, _⟩
  · exact named
  · exact named.alloc system last
  · have named' : last ≠ [] := by
      rw [splits.cases.1]
      exact lastSegment_nonempty nonempty
    exact named.grow system named' absent unmounted

theorem named_reaches {allowed : Vfs → FsEvent → Prop}
    (creates : ∀ vfs event, allowed vfs event → event.isCreate = true)
    (path : fileSystems.Reaches allowed rootVfs after) : FileSystem after ∧ Named after := by
  refine path.preserves (fun vfs => FileSystem vfs ∧ Named vfs) ⟨rootVfs_fileSystem, rootVfs_named⟩ ?_
  intro before event after ⟨system, named⟩ permitted enabled ran
  obtain ⟨live, _⟩ := fileSystems_enabled enabled
  cases event with
  | create =>
    obtain ⟨⟨after, out⟩, created, rfl⟩ := map_returns ran
    exact ⟨system.create live created, named.create system live created⟩
  | mount =>
    have create := creates before _ permitted
    contradiction

/-- The lookup finds the child with the name, and only that, if and only if the chain holds no other name that starts
with it. -/
theorem exact_resolution (vfs : Vfs) (path : fileSystems.Reaches (fun _ event => event.isCreate = true) rootVfs vfs)
    (d : Path) (inode : Inode) (inside : d.dentry < vfs.fresh)
    (here : (vfs.dentry d.dentry).inode = some inode) (isDirectory : inode.isDirectory = true)
    (s : Name) (nonempty : s ≠ []) (plain : directorySeparator ∉ s) (notDot : s ≠ [dot])
    (notDotDot : s ≠ [dot, dot]) :
    (((∃ r, vfsLookup vfs (some d) s = .ok (some r)) ↔
      ∃ c ∈ (vfs.dentry d.dentry).childrenList, (vfs.dentry c).name = s) ∧
    ∀ c ∈ (vfs.dentry d.dentry).childrenList, (vfs.dentry c).name = s →
      vfsLookup vfs (some d) s = .ok (some { d with dentry := c })) ↔
    ∀ c ∈ (vfs.dentry d.dentry).childrenList, bucketOf (vfs.dentry c).name = bucketOf s →
      s.isPrefixOf (vfs.dentry c).name = true → (vfs.dentry c).name = s := by
  obtain ⟨system, named⟩ := named_reaches (fun _ _ create => create) path
  have directory : OpenDirectory vfs d.dentry := ⟨inode, here, isDirectory, named.unmounted _ _ here⟩
  have looked := system.mounts.vfsLookup_segment directory nonempty plain
    (lookupSegment_child vfs d nonempty notDot notDotDot)
  have filed := system.tree.filed d.dentry inside (bucketOf s)
  have first : ∀ c ∈ (vfs.dentry d.dentry).childrenList, bucketOf (vfs.dentry c).name = bucketOf s →
      s.isPrefixOf (vfs.dentry c).name = true → ∃ first ∈ (vfs.dentry d.dentry).childrenList,
        bucketOf (vfs.dentry first).name = bucketOf s ∧ s.isPrefixOf (vfs.dentry first).name = true ∧
        vfsLookup vfs (some d) s = .ok (some { d with dentry := first }) ∧ ((vfs.dentry first).name = s → c = first) := by
    intro c child bucket starts
    have mem := (filed c).mpr ⟨child, bucket⟩
    obtain ⟨first, head⟩ : ∃ first, ((vfs.dentry d.dentry).childrenTab (bucketOf s)).find?
        (fun child => s.isPrefixOf (vfs.dentry child).name) = some first := by
      rw [← isSome_iff_exists, find?_isSome]
      exact ⟨c, mem, starts⟩
    obtain ⟨listed, sameBucket⟩ := (filed first).mp (mem_of_find?_eq_some head)
    obtain ⟨inode', childInode⟩ := isSome_iff_exists.mp (system.tree.children _ inside first listed).1.2
    refine ⟨first, listed, sameBucket, (find?_eq_some_iff_append.mp head).1, ?_, fun name =>
      named.first_alone inside here isDirectory head name plain mem starts⟩
    rw [looked, lookupChild, head]
    exact lookupFinish_open rfl childInode (named.unmounted _ _ childInode)
  constructor
  · rintro ⟨resolves, exactly⟩ c child bucket starts
    obtain ⟨other, _, _, _, resolved, alone⟩ := first c child bucket starts
    obtain ⟨c', child', name⟩ := resolves.mp ⟨_, resolved⟩
    cases resolved.symm.trans (exactly c' child' name)
    rw [alone name, name]
  · intro alone
    have found : ∀ c ∈ (vfs.dentry d.dentry).childrenList, (vfs.dentry c).name = s →
        vfsLookup vfs (some d) s = .ok (some { d with dentry := c }) := by
      intro c child name
      obtain ⟨other, listed, bucket, starts, resolved, same⟩ := first c child (by rw [name]) (by simp [name])
      rw [same (alone other listed bucket starts), resolved]
    refine ⟨⟨?_, ?_⟩, found⟩
    · rintro ⟨r, resolved⟩
      rw [looked, lookupChild] at resolved
      cases head : ((vfs.dentry d.dentry).childrenTab (bucketOf s)).find?
          (fun child => s.isPrefixOf (vfs.dentry child).name) with
      | none =>
        rw [head] at resolved
        cases resolved
      | some first =>
        obtain ⟨listed, sameBucket⟩ := (filed first).mp (mem_of_find?_eq_some head)
        exact ⟨first, listed, alone first listed sameBucket (find?_eq_some_iff_append.mp head).1⟩
    · rintro ⟨c, child, name⟩
      exact ⟨_, found c child name⟩

theorem exact_resolution_ac : ∃ vfs, vfsLookup vfs (some ⟨0, 0⟩) [97, 99] = .ok (some ⟨0, 1⟩) ∧
    ¬ ∃ r, vfsLookup vfs (some ⟨0, 0⟩) [97] = .ok (some r) := by
  obtain ⟨vfs, reached, inside, here, children, name⟩ : ∃ vfs,
      fileSystems.Reaches (fun _ event => event.isCreate = true) rootVfs vfs ∧ 0 < vfs.fresh ∧
      (vfs.dentry 0).inode = some { ops := .ramfs, flags := 1, ino := 1, mode := 0o040755, size := 1 } ∧
      (vfs.dentry 0).childrenList = [1] ∧ (vfs.dentry 1).name = [97, 99] :=
    Machine.run_exists [.create ⟨0, 0⟩ [97, 99] 0o100644] (by decide +kernel)
  have only : ∀ c ∈ (vfs.dentry 0).childrenList, (vfs.dentry c).name = [97, 99] := by
    intro c mem
    rw [children, mem_singleton] at mem
    rw [mem, name]
  have resolves := exact_resolution vfs reached ⟨0, 0⟩ _ inside here (by decide)
  have whole := (resolves [97, 99] (by decide) (by decide) (by decide) (by decide)).mpr fun c mem _ _ => only c mem
  have part := (resolves [97] (by decide) (by decide) (by decide) (by decide)).mpr (by
    intro c mem bucket
    rw [only c mem] at bucket
    exact absurd bucket (by decide))
  refine ⟨vfs, whole.2 1 (by rw [children]; decide) name, fun found => ?_⟩
  obtain ⟨c, mem, short⟩ := part.1.mp found
  rw [only c mem] at short
  contradiction

/-- `a` and `ab` share a chain, and the longer name is found for the shorter one. -/
theorem longer_name_resolved : ∃ vfs, fileSystems.Reaches (fun _ event => event.isCreate = true) rootVfs vfs ∧
    vfsLookup vfs (some ⟨0, 0⟩) [97] = .ok (some ⟨0, 1⟩) ∧
    (vfs.dentry 0).childrenList.map (fun c => (vfs.dentry c).name) = [[97, 98]] :=
  Machine.run_exists [.create ⟨0, 0⟩ [97, 98] 0o100644] (by decide +kernel)

/-- A creation whose path does not end in a separator, in a directory. -/
def orderly (vfs : Vfs) : FsEvent → Bool
  | .create start pathname _ =>
      pathname.getLast? != some directorySeparator &&
      match getPathWd vfs start pathname with
      | .ok (some (wd, _)) => (vfs.dentry wd.dentry).inode.any Inode.isDirectory
      | _ => true
  | .mount _ => false

def Shaped (vfs : Vfs) : Prop :=
  ∀ d, d < vfs.fresh → ∀ c ∈ (vfs.dentry d).childrenList,
    (vfs.dentry d).inode.any Inode.isDirectory = true ∧ (vfs.dentry c).name ≠ [] ∧
    directorySeparator ∉ (vfs.dentry c).name

theorem Shaped.create (shaped : Shaped vfs) (system : FileSystem vfs)
    (live : Live vfs start.dentry) (permitted : orderly vfs (.create start pathname mode) = true)
    (ran : vfsCreate vfs start pathname mode = .ok (after, out)) : Shaped after := by
  rw [orderly, Bool.and_eq_true, bne_iff_ne] at permitted
  obtain ⟨ends, directory⟩ := permitted
  rcases vfsCreate_cases system.tree live ran with
    ⟨rfl, _⟩ | ⟨last, rfl, _⟩ | ⟨wd, last, inode, splits, nonempty, inside, _, _, _, rfl, _⟩
  · exact shaped
  · intro d within c mem
    by_cases new : d = vfs.fresh
    · subst new
      rw [dentryAlloc, setDentry_same] at mem
      contradiction
    · have before : d < vfs.fresh := by
        have bound : d < vfs.fresh + 1 := within
        omega
      rw [dentryAlloc, setDentry_other _ new] at mem ⊢
      have old := (system.tree.children d before c mem).1.old
      rw [setDentry_other _ old]
      exact shaped d before c mem
  · intro d within c mem
    rcases (mem_grow_childrenList inside.old within c).mp mem with ⟨before, child⟩ | ⟨rfl, rfl⟩
    · rw [grow_inode (before.ne), grow_name (system.tree.children d before c child).1.old]
      exact shaped d before c child
    · rw [Splits] at splits
      rw [splits] at directory
      rw [grow_inode inside.old, grow_new]
      obtain ⟨name, _⟩ := Splits.cases splits
      rw [name]
      exact ⟨directory, lastSegment_nonempty nonempty, lastSegment_plain ends⟩

theorem dentry_tree_well_formed (vfs : Vfs)
    (path : fileSystems.Reaches (fun vfs event => orderly vfs event = true) rootVfs vfs) :
    (∀ d, d < vfs.fresh → (vfs.dentry d).childrenList ≠ [] →
      ∃ inode, (vfs.dentry d).inode = some inode ∧ inode.isDirectory = true) ∧
    (∀ d, d < vfs.fresh → ∀ c ∈ (vfs.dentry d).childrenList,
      (vfs.dentry c).name ≠ [] ∧ directorySeparator ∉ (vfs.dentry c).name) ∧
    ∀ d, d < vfs.fresh → ((vfs.dentry d).childrenList.map (fun c => (vfs.dentry c).name)).Nodup := by
  have creates : ∀ vfs event, orderly vfs event = true → event.isCreate = true := by
    intro vfs event permitted
    cases event with
    | create => rfl
    | mount => contradiction
  obtain ⟨system, named⟩ := named_reaches creates path
  have shaped : Shaped vfs := by
    refine (path.preserves (fun vfs => (FileSystem vfs ∧ Named vfs) ∧ Shaped vfs)
      ⟨⟨rootVfs_fileSystem, rootVfs_named⟩, fun d _ c mem => by contradiction⟩ ?_).2
    intro before event after ⟨⟨system, named⟩, shaped⟩ permitted enabled ran
    obtain ⟨live, _⟩ := fileSystems_enabled enabled
    cases event with
    | mount => contradiction
    | create =>
      obtain ⟨⟨after, out⟩, created, rfl⟩ := map_returns ran
      exact ⟨⟨system.create live created, named.create system live created⟩,
        shaped.create system live permitted created⟩
  have directories : ∀ d, d < vfs.fresh → ∀ c ∈ (vfs.dentry d).childrenList,
      ∃ inode, (vfs.dentry d).inode = some inode ∧ inode.isDirectory = true :=
    fun d inside c mem => (any_eq_true _ _).mp (shaped d inside c mem).1
  refine ⟨?_, fun d inside c mem => (shaped d inside c mem).2, ?_⟩
  · intro d inside some
    obtain ⟨c, mem⟩ := exists_mem_of_ne_nil _ some
    exact directories d inside c mem
  · intro d inside
    refine List.Nodup.map_on ?_ (system.tree.nodup d inside)
    intro c mem c' member' same
    obtain ⟨inode, here, isDirectory⟩ := directories d inside c mem
    exact named.distinct system inside here isDirectory mem member' same (shaped d inside c mem).2.2

theorem dentry_tree_well_formed_nested : ∃ vfs : Vfs,
    (vfs.dentry 1).childrenList.map (fun c => (vfs.dentry c).name) = [[120]] ∧
    ∃ inode, (vfs.dentry 1).inode = some inode ∧ inode.isDirectory = true := by
  obtain ⟨vfs, reached, names, inside, children⟩ : ∃ vfs,
      fileSystems.Reaches (fun vfs event => orderly vfs event = true) rootVfs vfs ∧
      (vfs.dentry 1).childrenList.map (fun c => (vfs.dentry c).name) = [[120]] ∧ 1 < vfs.fresh ∧
      (vfs.dentry 1).childrenList ≠ [] :=
    Machine.run_exists [.create ⟨0, 0⟩ [100] 0o040755, .create ⟨0, 0⟩ [100, 47, 120] 0o100644] (by decide +kernel)
  exact ⟨vfs, names, (dentry_tree_well_formed vfs reached).1 1 inside children⟩

/-- `f/x` is created in the file `f`, and `g/` under a name with the separator,
each of them twice. -/
theorem file_has_children : ∃ vfs, fileSystems.Reaches (fun _ event => event.isCreate = true) rootVfs vfs ∧
    (vfs.dentry 1).inode.any Inode.isDirectory = false ∧
    (vfs.dentry 1).childrenList.map (fun c => (vfs.dentry c).name) = [[120], [120]] ∧
    (vfs.dentry 0).childrenList.map (fun c => (vfs.dentry c).name) = [[103, 47], [103, 47], [102]] :=
  Machine.run_exists [.create ⟨0, 0⟩ [102] 0o100644, .create ⟨0, 0⟩ [102, 47, 120] 0o100644,
    .create ⟨0, 0⟩ [102, 47, 120] 0o100644, .create ⟨0, 0⟩ [103, 47] 0o040755, .create ⟨0, 0⟩ [103, 47] 0o040755]
    (by decide +kernel)

end KOs.Fs
