import KOs.Arch.Twin

namespace KOs.Arch.Paging

open KOs.Common KOs.Data KOs.Mm Function

/-- The processor lets user mode through an entry. -/
def userCan (entry : BitVec 32) : Bool :=
  (flagsOf entry).toNat &&& mmuflagPresent != 0 && (flagsOf entry).toNat &&& mmuflagUser != 0

/-- The byte that user mode reads at an address, if it can. -/
def userByte (cr3 virt : Nat) (s : Store) : Option (BitVec 8) :=
  let direntry := readFrame (cr3 / pageSize) (addrToDiridx virt) s
  let tabentry := readFrame (frameOf direntry) (addrToTabidx virt) s
  if userCan direntry && userCan tabentry then
    some (byteOf (virt % 4) (readFrame (frameOf tabentry) (getPageoff virt / 4) s))
  else none

structure Alike (kind : Nat → Option Kind) (dir : Nat) (current : ArchThreadData) (s t : Store) : Prop
    extends Placed kind dir current s where
  kernel : t.kernel = s.kernel
  kptab : t.kptabPhys = s.kptabPhys
  words : t.words dir = s.words dir
  tables : ∀ i, i < userTables → s.words dir i ≠ 0 →
    t.words (frameOf (s.words dir i)) = s.words (frameOf (s.words dir i))
  bytes : ∀ i j, i < userTables → j < numEntries → s.words dir i ≠ 0 → s.words (frameOf (s.words dir i)) j ≠ 0 →
    ∀ off, off < pageSize → SameByte s.words t.words (frameOf (s.words (frameOf (s.words dir i)) j)) off

section Views

variable {kind more : Nat → Option Kind} {dir : Nat} {current : ArchThreadData} {s t s' t' : Store}

theorem addrToDiridx_lt (virt : Nat) : addrToDiridx virt < numEntries := by
  rw [addrToDiridx, page_of_masked]
  simp only [pageSize, numEntries]
  omega

theorem userCan_zero : userCan 0 = false := by decide

theorem userCan_kernelEntry (kptabPhys k : Nat) : userCan (kernelEntry kptabPhys k) = false := by
  have flags : (mmuflagPresent ||| mmuflagWritable) % 2 ^ 12 &&& mmuflagUser = 0 := by decide
  rw [userCan, kernelEntry, flagsOf_entryOf, flags, bne_self_eq_false, Bool.and_false]

theorem Placed.readFrame_right (placed : Placed kind dir current s) (kptab : t.kptabPhys = s.kptabPhys) {q : Nat}
    {k : Kind} (known : kind q = some k) (i : Nat) : readFrame q i t = t.words q i := by
  rw [readFrame, kptabTable_congr kptab, placed.apart q k known]

theorem Alike.userByte (alike : Alike kind dir current s t) (virt : Nat) :
    Paging.userByte current.cr3 virt t = Paging.userByte current.cr3 virt s := by
  have range := (alike.typed.held alike.directory).range
  rw [Paging.userByte, Paging.userByte, alike.cr3, pageToPhys_page range,
    alike.readFrame_right alike.kptab alike.directory, alike.readFrame_kind alike.directory, alike.words]
  by_cases user : addrToDiridx virt < userTables
  · by_cases blank : s.words dir (addrToDiridx virt) = 0
    · rw [blank, userCan_zero, Bool.false_and, Bool.false_and]
      rfl
    · have table := (alike.typed.directories dir _ alike.directory user).resolve_left blank
      rw [alike.readFrame_right alike.kptab table, alike.readFrame_kind table, alike.tables _ user blank]
      by_cases empty : s.words (frameOf (s.words dir (addrToDiridx virt))) (addrToTabidx virt) = 0
      · rw [empty, userCan_zero, Bool.and_false]
        rfl
      · have page := (alike.typed.tables _ _ table (addrToTabidx_lt virt)).resolve_left empty
        have same := alike.bytes _ _ user (addrToTabidx_lt virt) blank empty (virt % pageSize) (Nat.mod_lt _ (by decide))
        have lane : virt % pageSize % 4 = virt % 4 := by
          simp only [pageSize]
          omega
        rw [SameByte, lane] at same
        rw [alike.readFrame_right alike.kptab page, alike.readFrame_kind page, getPageoff_eq, same]
  · rw [alike.typed.kernelHalf dir _ alike.directory (not_lt.mp user) (addrToDiridx_lt virt),
      userCan_kernelEntry, Bool.false_and, Bool.false_and]
    rfl

theorem Placed.alike (placed : Placed kind dir current s) (kernel : t.kernel = s.kernel)
    (kptab : t.kptabPhys = s.kptabPhys) (same : ∀ q ∉ freeSet s.frames, t.words q = s.words q) :
    Alike kind dir current s t := by
  have known : ∀ q k, kind q = some k → t.words q = s.words q :=
    fun q k here => same q (placed.typed.held here).taken
  refine ⟨placed, kernel, kptab, known dir _ placed.directory, fun i user some => ?_, fun i j user inside some filled off _ => ?_⟩
  · exact known _ _ ((placed.typed.directories dir i placed.directory user).resolve_left some)
  · have table := (placed.typed.directories dir i placed.directory user).resolve_left some
    exact SameByte.of_eq (known _ _ ((placed.typed.tables _ j table inside).resolve_left filled))

theorem Alike.kept (alike : Alike kind dir current s t) (placed : Placed more dir current s')
    (kernel : t'.kernel = s'.kernel) (kptab : t'.kptabPhys = s'.kptabPhys)
    (same : ∀ q ∉ freeSet s.frames, s'.words q = s.words q ∧ t'.words q = t.words q) :
    Alike more dir current s' t' := by
  have known : ∀ q k, kind q = some k → s'.words q = s.words q ∧ t'.words q = t.words q :=
    fun q k here => same q (alike.typed.held here).taken
  have at_dir := known dir _ alike.directory
  refine ⟨placed, kernel, kptab, ?_, fun i user some => ?_, fun i j user inside some filled off small => ?_⟩
  · rw [at_dir.1, at_dir.2, alike.words]
  · rw [at_dir.1] at some ⊢
    have table := (alike.typed.directories dir i alike.directory user).resolve_left some
    rw [(known _ _ table).1, (known _ _ table).2, alike.tables i user some]
  · rw [at_dir.1] at some filled ⊢
    have table := (alike.typed.directories dir i alike.directory user).resolve_left some
    rw [(known _ _ table).1] at filled ⊢
    have page := (alike.typed.tables _ j table inside).resolve_left filled
    rw [SameByte, (known _ _ page).1, (known _ _ page).2]
    exact alike.bytes i j user inside some filled off small

/-- Once every byte of the pages that are mapped has been written, the same can be read in both. -/
theorem Twin.alike {free : Set Nat} {left right : Nat → Nat → BitVec 32} {written touched : Set Nat}
    (twin : Twin free left right kind dir current written touched s t)
    (covered : ∀ page ∈ touched, page < userTables * numEntries →
      ∀ off < pageSize, page * pageSize + off ∈ written) :
    Alike kind dir current s t := by
  have named : ∀ i < userTables, s.words dir i ≠ 0 → points (s.words dir i) = some (frameOf (s.words dir i)) := by
    intro i user linked
    obtain ⟨table, _, found⟩ := (twin.built.linked i user).resolve_left linked
    rw [found, (points_some.mp found).1]
  refine ⟨twin.toPlaced, twin.kernel, twin.kptab, twin.tables dir (.inl rfl), fun i user linked => ?_,
    fun i j user inside linked filled off small => ?_⟩
  · exact twin.tables _ (.inr ⟨i, user, named i user linked⟩)
  · have below : i * numEntries + j < userTables * numEntries := by
      simp only [numEntries, userTables, kernelNumTables] at *
      omega
    have place : (i * numEntries + j) / numEntries = i ∧ (i * numEntries + j) % numEntries = j := by
      simp only [numEntries] at *
      omega
    have found : pageWord dir s.words (i * numEntries + j) = some (s.words (frameOf (s.words dir i)) j) := by
      rw [pageWord, lookupWord, place.1, place.2, named i user linked, Option.map_some]
    obtain ⟨here, each⟩ := twin.mapped _ _ below found filled
    exact each off small (covered _ here below off small)

theorem Arranged.replace_twin (arranged : Arranged kind s) (kernel : t.kernel = s.kernel)
    (kptab : t.kptabPhys = s.kptabPhys) :
    Coupled (fun a b => b.2 = a.2 ∧ ∃ more new,
        Twin (freeSet s.frames) s.words t.words more new a.2 ∅ ∅ a.1 b.1 ∧ Evolved kind s more a.1)
      (archReplaceMem 0 s) (archReplaceMem 0 t) := by
  rw [archReplaceMem, archReplaceMem, if_pos rfl, if_pos rfl]
  cases taken : Mm.allocPages 1 allocZero s.kernel.memory with
  | error reason =>
    rw [newDir_fails taken, newDir_fails (kernel ▸ taken)]
    exact .stopped _
  | ok result =>
    obtain ⟨memory, new⟩ := result
    have granted := allocPages_granted arranged.typed.sound (by decide) taken
    have listed : new ∈ freeSet s.frames := granted.free (mem_run_one.mpr rfl)
    obtain ⟨placed, evolved⟩ := arranged.newDirectory granted
    have blank : ∀ i < userTables, dirWords s.kptabPhys i = 0 := fun i user => if_neg (by omega)
    have nothing : ∀ i < userTables, points (update s.words new (dirWords s.kptabPhys) new i) = none := by
      intro i user
      rw [update_self, blank i user, points_zero]
    have empty : ∀ page < userTables * numEntries,
        pageWord new (update s.words new (dirWords s.kptabPhys)) page = none := by
      intro page inside
      rw [pageWord, lookupWord, nothing _ (page_table inside), Option.map_none]
    rw [newDir_ok arranged.typed.sound taken, newDir_ok (kernel ▸ arranged.typed.sound) (kernel ▸ taken), ok_bind, ok_bind]
    refine .returned ⟨rfl, _, new, ⟨placed, ?_, kptab, evolved.memory.free, ⟨listed, ⟨?_, ?_⟩, ?_, ?_⟩, ?_, ?_, by simp, ?_⟩,
      evolved⟩
    · dsimp only
      rw [kernel]
    · intro i _ user found
      rw [nothing i user] at found
      contradiction
    · intro i j _ user _ found
      rw [nothing i user] at found
      contradiction
    · intro i user
      dsimp only
      rw [update_self, blank i user]
      exact .inl rfl
    · intro page w inside found
      rw [empty page inside] at found
      contradiction
    · rintro q (rfl | ⟨i, user, found⟩)
      · dsimp only
        rw [update_self, update_self, kptab]
      · dsimp only at found
        rw [nothing i user] at found
        contradiction
    · intro page w inside found
      rw [empty page inside] at found
      contradiction
    · intro q beyond
      have other : q ≠ new := fun same => beyond (same ▸ listed)
      exact ⟨update_of_ne other .., update_of_ne other ..⟩

end Views

end KOs.Arch.Paging
