import KOs.Arch.Tables

namespace KOs.Arch.Paging

open KOs.Common KOs.Data KOs.Mm Function Option

inductive Kind where
  | directory
  | table
  | page
deriving DecidableEq, Repr

def kernelEntry (kptabPhys k : Nat) : BitVec 32 := entryOf (kptabPhys + pageSize * k) (mmuflagPresent ||| mmuflagWritable)

def dirWords (kptabPhys i : Nat) : BitVec 32 :=
  if userTables ≤ i ∧ i < numEntries then kernelEntry kptabPhys (i - userTables) else 0

structure Typed (kind : Nat → Option Kind) (s : Store) : Prop where
  sound : Sound s.kernel.memory {q | kind q ≠ none}
  directories : ∀ d i, kind d = some .directory → i < userTables →
    s.words d i = 0 ∨ kind (frameOf (s.words d i)) = some .table
  tables : ∀ t j, kind t = some .table → j < numEntries →
    s.words t j = 0 ∨ kind (frameOf (s.words t j)) = some .page
  kernelHalf : ∀ d i, kind d = some .directory → userTables ≤ i → i < numEntries →
    s.words d i = kernelEntry s.kptabPhys (i - userTables)

variable {memory : Memory}

section NewDir

variable {s s' : Store} {held : Set Nat} {dir : Nat}

theorem clearUserHalf_blank (room : s.kmap.kernelNextPage ≤ windowPages) (backed : Backed s.kernel.memory dir)
    (blank : s.words dir = fun _ => 0) {count : Nat} (bounded : count ≤ numEntries) :
    forLoop (fun i => direntryClear (s.frames.pages dir).addr i) count s = .ok s := by
  have zero : entryOf 0 0 = 0 := by decide
  induction count with
  | zero => rfl
  | succ count ih =>
    have same : s.words dir count = entryOf 0 0 := by rw [blank, zero]
    rw [forLoop, ih (by omega)]
    dsimp only
    rw [direntryClear, direntrySet, entrySet_backed room backed (by omega), putWord_self same]

def kernelWords (kptabPhys count i : Nat) : BitVec 32 :=
  if userTables ≤ i ∧ i < userTables + count then kernelEntry kptabPhys (i - userTables) else 0

theorem kernelWords_succ (kptabPhys count : Nat) : kernelWords kptabPhys (count + 1) =
    update (kernelWords kptabPhys count) (count + userTables) (kernelEntry kptabPhys count) := by
  funext i
  by_cases last : i = count + userTables
  · rw [last, update_self, kernelWords, if_pos (by omega), Nat.add_sub_cancel]
  · rw [update_of_ne last, kernelWords, kernelWords]
    by_cases inside : userTables ≤ i ∧ i < userTables + count
    · rw [if_pos inside, if_pos (by omega)]
    · rw [if_neg inside, if_neg (by omega)]

section

variable (room : s.kmap.kernelNextPage ≤ windowPages) (backed : Backed s.kernel.memory dir)
  (blank : s.words dir = fun _ => 0)
include room backed blank

theorem setKernelHalf_blank {count : Nat} (bounded : count ≤ kernelNumTables) :
    forLoop (fun i next => direntrySet (s.frames.pages dir).addr (i + userTables) (next.kptabPhys + pageSize * i)
      (mmuflagPresent ||| mmuflagWritable) next) count s =
      .ok { s with words := update s.words dir (kernelWords s.kptabPhys count) } := by
  induction count with
  | zero =>
    have none : kernelWords s.kptabPhys 0 = s.words dir := by
      funext i
      rw [blank, kernelWords, if_neg (by omega)]
    rw [none, update_eq_self]
    rfl
  | succ count ih =>
    have inside : count + userTables < numEntries := by
      simp only [userTables, numEntries, kernelNumTables] at *
      omega
    have set := entrySet_backed (s := { s with words := update s.words dir (kernelWords s.kptabPhys count) })
      room backed inside (s.kptabPhys + pageSize * count) (mmuflagPresent ||| mmuflagWritable)
    rw [forLoop, ih (by omega)]
    dsimp only [Store.frames] at set ⊢
    rw [direntrySet, set, kernelWords_succ, putWord, update_self, update_idem, kernelEntry]

theorem buildPageDir_blank : buildPageDir (s.frames.pages dir).addr s =
      .ok { s with words := update s.words dir (dirWords s.kptabPhys) } := by
  have count : numEntries - kernelNumTables = userTables := rfl
  rw [buildPageDir, count, clearUserHalf_blank room backed blank (by decide), ok_bind]
  exact setKernelHalf_blank room backed blank le_rfl

end

theorem newDir_ok (sound : Sound s.kernel.memory held)
    (taken : Mm.allocPages 1 allocZero s.kernel.memory = .ok (memory, dir)) :
    newDir s = .ok ({ s with
      kernel.memory := memory
      words := update s.words dir (dirWords s.kptabPhys) }, dir) := by
  have granted := allocPages_granted sound (by decide) taken
  have ran : allocPage allocZero s =
      .ok ({ s with kernel.memory := memory, words := update s.words dir (fun _ => 0) }, dir) := by
    rw [allocPage, allocPages_cleared sound (by decide) taken, cleared_one]
  have built := buildPageDir_blank (s := { s with kernel.memory := memory, words := update s.words dir (fun _ => 0) })
    granted.room (granted.backed dir (mem_run_one.mpr rfl)) (update_self ..)
  dsimp only [Store.frames] at built
  rw [update_idem] at built
  rw [newDir, ran, ok_bind]
  dsimp only [pageToVirt]
  rw [built, ok_bind]
  rfl

theorem newDir_fails {fault : Fault} (failed : Mm.allocPages 1 allocZero s.kernel.memory = .error fault) :
    newDir s = .error fault := by
  rw [newDir, allocPage, allocPages, failed]
  rfl

theorem archReplaceMem_new (sound : Sound s.kernel.memory held) {task : ArchThreadData}
    (ran : archReplaceMem 0 s = .ok (s', task)) :
    ∃ memory dir, Granted dir 1 s.kernel.memory memory ∧
      s' = { s with kernel.memory := memory, words := update s.words dir (dirWords s.kptabPhys) } ∧
      task = { cr3 := pageToPhys dir, dir := (memory.frames.pages dir).addr } := by
  rw [archReplaceMem, if_pos rfl] at ran
  cases taken : Mm.allocPages 1 allocZero s.kernel.memory with
  | error =>
    rw [newDir_fails taken] at ran
    cases ran
  | ok result =>
    obtain ⟨memory, dir⟩ := result
    rw [newDir_ok sound taken, ok_bind] at ran
    cases ran
    exact ⟨memory, dir, allocPages_granted sound (by decide) taken, rfl, rfl⟩

end NewDir

variable {words : Nat → Nat → BitVec 32}

section Typed

variable {s : Store} {kind : Nat → Option Kind} {task : ArchThreadData} {dir : Nat}

/-- What the word at a place in a frame of some kind can be. -/
def WordFits (kind : Nat → Option Kind) (kptab i : Nat) (word : BitVec 32) : Kind → Prop
  | .directory => (i < userTables → word = 0 ∨ kind (frameOf word) = some .table) ∧
      (userTables ≤ i → i < numEntries → word = kernelEntry kptab (i - userTables))
  | .table => i < numEntries → word = 0 ∨ kind (frameOf word) = some .page
  | .page => True

theorem WordFits.mono {more : Nat → Option Kind} {kptab i : Nat} {word : BitVec 32} {k : Kind}
    (fits : WordFits kind kptab i word k) (old : ∀ q k, kind q = some k → more q = some k) :
    WordFits more kptab i word k := by
  cases k with
  | directory => exact ⟨fun user => (fits.1 user).imp_right (old _ _), fits.2⟩
  | table => exact fun inside => (fits inside).imp_right (old _ _)
  | page => trivial

theorem typed_iff : Typed kind s ↔ Sound s.kernel.memory {q | kind q ≠ none} ∧
    ∀ q k i, kind q = some k → WordFits kind s.kptabPhys i (s.words q i) k := by
  constructor
  · rintro ⟨sound, directories, tables, kernelHalf⟩
    refine ⟨sound, fun q k i known => ?_⟩
    cases k with
    | directory => exact ⟨directories q i known, kernelHalf q i known⟩
    | table => exact tables q i known
    | page => trivial
  · rintro ⟨sound, fits⟩
    exact ⟨sound, fun d i known => (fits d _ i known).1, fun t j known => fits t _ j known,
      fun d i known => (fits d _ i known).2⟩

theorem Sound.typed (sound : Sound s.kernel.memory ∅) : Typed (fun _ => none) s :=
  ⟨sound.mono fun _ known => absurd rfl known, nofun, nofun, nofun⟩

namespace Typed

section

variable (typed : Typed kind s)
include typed
variable {q d i t p n : Nat} {k : Kind} {entry : BitVec 32}

theorem held (known : kind q = some k) : Backed s.kernel.memory q :=
  typed.sound.backed q (by simp [known])

theorem points_table (directory : kind d = some .directory) (inside : i < userTables)
    (found : points (s.words d i) = some t) : kind t = some .table := by
  rcases typed.directories d i directory inside with zero | table
  · rw [zero, points_zero] at found
    contradiction
  · rwa [(points_some.mp found).1] at table

theorem reaching (directory : kind dir = some .directory)
    (addr : task.dir = (s.frames.pages dir).addr) (inside : i < userTables) : Reaching task dir i s where
  room := typed.sound.room
  directory := typed.held directory
  addr := addr
  inside := userTables_lt inside
  table := fun _ found => typed.held (typed.points_table directory inside found)

theorem unknown (granted : Granted p n s.kernel.memory memory) (inside : q ∈ run p n) :
    kind q = none := by
  cases known : kind q with
  | none => rfl
  | some => exact absurd inside (granted.fresh (typed.held known))

theorem extend (granted : Granted p n s.kernel.memory memory) {more : Nat → Option Kind}
    (old : ∀ q k, kind q = some k → more q = some k) (only : ∀ q k, more q = some k → kind q = some k ∨ q ∈ run p n)
    (same : ∀ q ∉ run p n, words q = s.words q)
    (fits : ∀ q k i, q ∈ run p n → more q = some k → WordFits more s.kptabPhys i (words q i) k) :
    Typed more { s with kernel.memory := memory, words } := by
  refine typed_iff.mpr ⟨(typed.sound.grant granted).mono fun q known => ?_, fun q k i here => ?_⟩
  · obtain ⟨k, here⟩ := ne_none_iff_exists'.mp known
    refine (only q k here).imp_left fun earlier => ?_
    rw [Set.mem_ofPred_eq, earlier]
    nofun
  · rcases only q k here with known | new
    · have outside : q ∉ run p n := granted.fresh (typed.held known)
      dsimp only
      rw [same q outside]
      exact ((typed_iff.mp typed).2 q k i known).mono old
    · exact fits q k i new here

theorem write (page : kind q = some .page) (contents : Nat → BitVec 32) :
    Typed kind { s with words := update s.words q contents } := by
  refine typed_iff.mpr ⟨typed.sound, fun p k i known => ?_⟩
  by_cases here : p = q
  · cases page.symm.trans (here ▸ known)
    trivial
  · dsimp only
    rw [update_of_ne here]
    exact (typed_iff.mp typed).2 p k i known

theorem put (known : kind q = some k) (fits : WordFits kind s.kptabPhys i entry k) :
    Typed kind { s with words := putWord s.words q i entry } := by
  refine typed_iff.mpr ⟨typed.sound, fun p l j there => ?_⟩
  dsimp only
  rw [putWord_apply]
  split
  next here =>
    obtain ⟨rfl, rfl⟩ := here
    cases known.symm.trans there
    exact fits
  · exact (typed_iff.mp typed).2 p l j there

theorem extendOne (granted : Granted p 1 s.kernel.memory memory)
    (same : ∀ q ≠ p, words q = s.words q) (fits : ∀ i, WordFits (update kind p (some k)) s.kptabPhys i (words p i) k) :
    Typed (update kind p (some k)) { s with kernel.memory := memory, words } := by
  have new : kind p = none := typed.unknown granted (mem_run_one.mpr rfl)
  refine typed.extend granted (fun q other known => ?_) (fun q other known => ?_)
    (fun q outside => same q fun eq => outside (mem_run_one.mpr eq)) fun q other i inside known => ?_
  · have apart : q ≠ p := by
      rintro rfl
      rw [new] at known
      contradiction
    rw [update_of_ne apart, known]
  · by_cases eq : q = p
    · exact .inr (mem_run_one.mpr eq)
    · rw [update_of_ne eq] at known
      exact .inl known
  · obtain rfl := mem_run_one.mp inside
    rw [update_self] at known
    exact some.inj known ▸ fits i

theorem newDirectory (granted : Granted dir 1 s.kernel.memory memory) :
    Typed (update kind dir (some .directory))
      { s with kernel.memory := memory, words := update s.words dir (dirWords s.kptabPhys) } := by
  refine typed.extendOne granted (fun _ apart => update_of_ne apart ..) fun i => ?_
  rw [update_self, dirWords]
  exact ⟨fun user => .inl (if_neg (by omega)), fun above inside => if_pos ⟨above, inside⟩⟩

end

def withPages (kind : Nat → Option Kind) (p n : Nat) : Nat → Option Kind :=
  fun q => if p ≤ q ∧ q < p + n then some .page else kind q

theorem newPages (typed : Typed kind s) {p n : Nat} (granted : Granted p n s.kernel.memory memory)
    (same : ∀ q ∉ run p n, words q = s.words q) :
    Typed (withPages kind p n) { s with kernel.memory := memory, words } ∧
      (∀ q k, kind q = some k → withPages kind p n q = some k) ∧
      ∀ q k, withPages kind p n q = some k → kind q = some k ∨ q ∈ run p n := by
  have old : ∀ q k, kind q = some k → withPages kind p n q = some k := by
    intro q k known
    have outside : ¬ (p ≤ q ∧ q < p + n) := granted.fresh (typed.held known)
    rw [withPages, if_neg outside, known]
  have only : ∀ q k, withPages kind p n q = some k → kind q = some k ∨ q ∈ run p n := by
    intro q k known
    by_cases mem : p ≤ q ∧ q < p + n
    · exact .inr mem
    · rw [withPages, if_neg mem] at known
      exact .inl known
  refine ⟨typed.extend granted old only same fun q k i mem known => ?_, old, only⟩
  rw [withPages, if_pos (mem_run.mp mem)] at known
  cases known
  trivial

theorem map (typed : Typed kind s) {i j phys : Nat} {s' : Store} (directory : kind dir = some .directory)
    (user : i < userTables) (page : kind (frameOf (entryOf phys userFlags)) = some .page)
    (step : UserMapped dir i j phys s s') :
    ∃ more, Typed more s' ∧ (∀ q k, kind q = some k → more q = some k) ∧
      ∀ q k, more q = some k → kind q = some k ∨ q ∈ freeSet s.frames := by
  cases step with
  | present found =>
    exact ⟨kind, typed.put (typed.points_table directory user found) fun _ => .inr page, fun _ _ known => known,
      fun _ _ known => .inl known⟩
  | @absent t memory _ next granted =>
    have new : kind t = none := typed.unknown granted (mem_run_one.mpr rfl)
    have range := (granted.backed t (mem_run_one.mpr rfl)).range
    have kept : ∀ q k, kind q = some k → update kind t (some .table) q = some k := by
      intro q k known
      have apart : q ≠ t := by
        rintro rfl
        rw [new] at known
        contradiction
      rw [update_of_ne apart, known]
    have named : frameOf (entryOf (pageToPhys t) userFlags) = t := by
      rw [frameOf_entryOf (pageToPhys_lt t), pageToPhys_page range]
    have table : update kind t (some .table) t = some .table := update_self ..
    have blank : Typed (update kind t (some .table))
        { s with kernel.memory := memory, words := update s.words t (fun _ => 0) } :=
      typed.extendOne granted (fun _ apart => update_of_ne apart ..) fun _ _ => .inl (by rw [update_self])
    have links : WordFits (update kind t (some .table)) s.kptabPhys i (entryOf (pageToPhys t) userFlags) .directory :=
      ⟨fun _ => .inr (by rw [named, table]), fun above => absurd user (by omega)⟩
    have linked := blank.put (kept dir _ directory) links
    have filled := linked.put (i := j) table fun _ => .inr (kept _ _ page)
    refine ⟨_, filled, kept, fun q k known => ?_⟩
    by_cases eq : q = t
    · exact .inr (eq ▸ granted.free (mem_run_one.mpr rfl))
    · rw [update_of_ne eq] at known
      exact .inl known

end Typed

end Typed

end KOs.Arch.Paging
