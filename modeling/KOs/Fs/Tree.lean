import KOs.Fs.Lookup
import KOs.Data.Transition

namespace KOs.Fs

open KOs.Common KOs.Data List

variable {vfs : Vfs}

/-- A dentry that paths can lead to; others have been allocated for nothing. -/
def Live (vfs : Vfs) (d : Nat) : Prop := d < vfs.fresh ∧ (vfs.dentry d).inode.isSome = true

structure Tree (vfs : Vfs) : Prop where
  filed : ∀ d, d < vfs.fresh → ∀ b c, c ∈ (vfs.dentry d).childrenTab b ↔
    c ∈ (vfs.dentry d).childrenList ∧ bucketOf (vfs.dentry c).name = b
  children : ∀ d, d < vfs.fresh → ∀ c, c ∈ (vfs.dentry d).childrenList →
    Live vfs c ∧ (vfs.dentry c).parent = some d
  nodup : ∀ d, d < vfs.fresh → (vfs.dentry d).childrenList.Nodup
  parents : ∀ c d, c < vfs.fresh → (vfs.dentry c).parent = some d → Live vfs d
  roots : ∀ mount, Live vfs (vfs.mount mount).root
  mountpoints : ∀ mount mountpoint, (vfs.mount mount).mountpoint = some mountpoint →
    Live vfs mountpoint.dentry

def WalkLive (vfs : Vfs) (walk : Walk) : Prop :=
  ∀ cwd, walk.cwd = some cwd → Live vfs cwd.dentry

variable {path : Name}

namespace Tree

variable (tree : Tree vfs)
include tree
variable {cwd next start found : Path} {segment : Name} {walk : Walk}

theorem lookupClimb_live (turned : lookupClimb vfs cwd = .ok next) :
    Live vfs next.dentry := by
  rw [lookupClimb] at turned
  split at turned
  · contradiction
  next mountpoint mounted =>
    obtain ⟨inode, _, turned⟩ := bind_returns turned
    obtain ⟨_, _, turned⟩ := bind_returns turned
    cases turned
    exact tree.mountpoints _ _ mounted

theorem lookupUp_live {up : Path} (live : Live vfs cwd.dentry)
    (ran : lookupUp vfs cwd = .ok up) : Live vfs up.dentry := by
  obtain ⟨top, looped, rest⟩ := bind_returns ran
  have climbed : Live vfs top.dentry :=
    whileLoop_preserves (fun cwd => Live vfs cwd.dentry) looped live
      fun _ _ _ _ turned => tree.lookupClimb_live turned
  split at rest
  next parent above =>
    cases rest
    exact tree.parents _ _ climbed.1 above
  · cases rest
    exact climbed

theorem lookupChild_live {child : Path} (live : Live vfs cwd.dentry)
    (found : lookupChild vfs cwd segment = some child) : Live vfs child.dentry := by
  rw [lookupChild, Option.map_eq_some_iff] at found
  obtain ⟨c, found, rfl⟩ := found
  have filed := (tree.filed _ live.1 _ c).mp (mem_of_find?_eq_some found)
  exact (tree.children _ live.1 c filed.1).1

theorem lookupSegment_live (live : Live vfs cwd.dentry)
    (ran : lookupSegment vfs cwd segment = .ok (some next)) : Live vfs next.dentry := by
  rw [lookupSegment] at ran
  split at ran
  · cases ran
    exact live
  · split at ran
    · cases ran
      exact live
    · split at ran
      · cases upper : lookupUp vfs cwd with
        | error =>
          rw [upper] at ran
          contradiction
        | ok =>
          rw [upper] at ran
          cases ran
          exact tree.lookupUp_live live upper
      · exact tree.lookupChild_live live (Except.ok.inj ran)

theorem lookupTurn_live {next : Walk} (live : WalkLive vfs walk)
    (ran : lookupTurn vfs walk = .ok next) : WalkLive vfs next := by
  cases here : walk.cwd with
  | none =>
    rw [lookupTurn, here] at ran
    cases ran
    exact live
  | some cwd =>
    rcases lookupTurn_cases here ran with ⟨_, rfl⟩ | ⟨root, entered, rfl⟩ | ⟨_, cwd', stepped, rfl⟩
    · intro _ _
      contradiction
    · obtain ⟨mount, _, rfl⟩ := lookupEnter_submount entered
      intro _ same
      cases same
      exact tree.roots _
    · intro next same
      cases same
      exact tree.lookupSegment_live (live cwd here) stepped

theorem lookupStart_live (live : Live vfs start.dentry) (path : Name) :
    WalkLive vfs (lookupStart vfs (some start) path) := by
  intro cwd same
  rw [lookupStart] at same
  split at same <;> cases same
  · exact tree.roots _
  · exact live

theorem lookupFinish_live (live : WalkLive vfs walk)
    (finish : lookupFinish vfs walk = .ok (some found)) : Live vfs found.dentry := by
  cases here : walk.cwd with
  | none =>
    rw [lookupFinish, here] at finish
    cases finish
  | some =>
    rw [lookupFinish, here] at finish
    obtain ⟨inode, _, finish⟩ := bind_returns finish
    split at finish
    · split at finish
      · contradiction
      · cases finish
        exact tree.roots _
    · cases finish
      exact live _ here

theorem vfsLookup_live (live : Live vfs start.dentry)
    (ran : vfsLookup vfs (some start) path = .ok (some found)) : Live vfs found.dentry := by
  obtain ⟨walk, looped, finish⟩ := bind_returns ran
  refine tree.lookupFinish_live ?_ finish
  exact whileLoop_preserves _ looped (tree.lookupStart_live live path)
    fun _ _ live _ turned => tree.lookupTurn_live live turned

end Tree

theorem lastSegmentFrom_spec {full : Name} (done : Name) {seg : Nat} (whole : full = done ++ path)
    (after : seg = 0 ∨ 0 < seg ∧ seg < full.length ∧ full[seg - 1]? = some directorySeparator)
    (between : ∀ i, seg ≤ i → i < done.length → full[i]? = some directorySeparator → i + 1 = full.length) :
    (lastSegmentFrom path done.length seg = 0 ∨ 0 < lastSegmentFrom path done.length seg ∧
      lastSegmentFrom path done.length seg < full.length ∧
      full[lastSegmentFrom path done.length seg - 1]? = some directorySeparator) ∧
    ∀ i, lastSegmentFrom path done.length seg ≤ i → full[i]? = some directorySeparator → i + 1 = full.length := by
  induction path generalizing done seg with
  | nil =>
    refine ⟨after, fun i behind separator => between i behind ?_ separator⟩
    obtain ⟨within, _⟩ := List.getElem?_eq_some_iff.mp separator
    rwa [whole, List.append_nil] at within
  | cons c path ih =>
    have whole' : full = (done ++ [c]) ++ path := by rw [whole, List.append_assoc]; rfl
    have here : full[done.length]? = some c := by simp [whole]
    have length : (done ++ [c]).length = done.length + 1 := by simp
    rw [lastSegmentFrom, ← length]
    by_cases separates : c = directorySeparator ∧ path ≠ []
    · rw [if_pos separates]
      refine ih _ whole' (.inr ⟨by simp, ?_, ?_⟩) ?_
      · have pos := List.length_pos_iff.mpr separates.2
        simp only [whole', List.length_append]
        omega
      · rw [length, Nat.add_sub_cancel, here, separates.1]
      · intro i _ _
        omega
    · rw [if_neg separates]
      refine ih _ whole' after ?_
      intro i behind before separator
      rcases lt_or_ge i done.length with earlier | later
      · exact between i behind earlier separator
      · have same : i = done.length := by omega
        subst same
        rw [here] at separator
        have none : path = [] := by
          by_contra more
          exact separates ⟨Option.some.inj separator, more⟩
        rw [whole, none]
        simp

theorem lastSegment_spec (path : Name) :
    (lastSegment path = 0 ∨ 0 < lastSegment path ∧ lastSegment path < path.length ∧
      path[lastSegment path - 1]? = some directorySeparator) ∧
    ∀ i, lastSegment path ≤ i → path[i]? = some directorySeparator → i + 1 = path.length :=
  lastSegmentFrom_spec [] rfl (Or.inl rfl) (by simp)

theorem lastSegment_nonempty (nonempty : path ≠ []) : path.drop (lastSegment path) ≠ [] := by
  have pos := length_pos_iff.mpr nonempty
  rw [Ne, drop_eq_nil_iff]
  rcases (lastSegment_spec path).1 with zero | ⟨_, within, _⟩ <;> omega

theorem lastSegment_plain (ends : path.getLast? ≠ some directorySeparator) :
    directorySeparator ∉ path.drop (lastSegment path) := by
  intro mem
  obtain ⟨i, here⟩ := mem_iff_getElem?.mp mem
  rw [getElem?_drop] at here
  have last := (lastSegment_spec path).2 _ (Nat.le_add_right _ _) here
  rw [getLast?_eq_getElem?, ← last, Nat.add_sub_cancel] at ends
  exact ends here

end KOs.Fs
