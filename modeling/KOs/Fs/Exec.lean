import KOs.Data.Circular
import KOs.Fs.Loading

namespace KOs.Fs.Exec

open KOs.Arch.Paging KOs.Common KOs.Data KOs.Mm List

/-- The loop of `build_strtab`: what is written, and where. -/
def strtabWrites : Nat → Nat → List (List UInt8) → List (Nat × List UInt8)
  | start, _, [] => [(start, pointerBytes 0)]
  | start, fin, string :: rest => (start, pointerBytes fin) :: (fin, string ++ [0]) ::
      strtabWrites ((start + 4) % 2 ^ 32) ((fin + string.length + 1) % 2 ^ 32) rest

def buildWrites (start : Nat) (tab : List (List UInt8)) : List (Nat × List UInt8) :=
  strtabWrites start ((start + 4 * (4 * tab.length + 1)) % 2 ^ 32) tab

/-- What the calls for `argv` and `envp` write; `none` is `NULL`, at which `while(*tab)` looks. -/
def argumentWrites : Option (List (List UInt8)) → Option (List (List UInt8)) → Except Fault (List (Nat × List UInt8))
  | some argv, some envp =>
      .ok (buildWrites uargsAddrStart argv ++ buildWrites (strtabEnd uargsAddrStart argv % 2 ^ 32) envp)
  | _, _ => .error (.outOfBounds "tab" 0)

def uargsEnd : Nat := uargsAddrStart + uargsNumPages * pageSize

def Inside (w : Nat × List UInt8) : Prop := uargsAddrStart ≤ w.1 ∧ w.1 + w.2.length ≤ uargsEnd

variable {start fin : Nat} {tab argv envp : List (List UInt8)}

theorem writeStrtab_eq (cr3 : Nat) (small : fin < 2 ^ 32) {s : Store} : writeStrtab cr3 start fin tab s =
    ((strtabWrites start fin tab).foldlM (fun s w => writeBytes cr3 w.1 w.2 s) s).map
      (fun s => (s, (fin + stringBytes tab) % 2 ^ 32)) := by
  induction tab generalizing start fin s with
  | nil =>
    have last : (fin + stringBytes []) % 2 ^ 32 = fin := Nat.mod_eq_of_lt small
    rw [writeStrtab, strtabWrites, last, writePointer, foldlM_cons]
    cases writeBytes cr3 start (pointerBytes 0) s <;> rfl
  | cons string rest ih =>
    have last : (fin + stringBytes (string :: rest)) % 2 ^ 32 =
        ((fin + string.length + 1) % 2 ^ 32 + stringBytes rest) % 2 ^ 32 := by
      rw [stringBytes_cons]
      omega
    rw [writeStrtab, strtabWrites, last, writePointer, foldlM_cons]
    cases writeBytes cr3 start (pointerBytes fin) s with
    | error => rfl
    | ok next =>
      simp only [ok_bind, foldlM_cons, ih (Nat.mod_lt _ (by decide))]
      cases writeBytes cr3 fin (string ++ [0]) next <;> rfl

theorem buildStrtab_eq (cr3 : Nat) (s : Store) : buildStrtab cr3 start tab s =
    ((buildWrites start tab).foldlM (fun s w => writeBytes cr3 w.1 w.2 s) s).map
      (fun s => (s, strtabEnd start tab % 2 ^ 32)) := by
  rw [buildStrtab, writeStrtab_eq cr3 (Nat.mod_lt _ (by decide)), buildWrites, strtabEnd, Nat.mod_add_mod]

theorem strtabWrites_inside (above : uargsAddrStart ≤ start) : (∀ w ∈ strtabWrites start fin tab, Inside w) ↔
    start + 4 * (tab.length + 1) ≤ uargsEnd ∧
      (tab = [] ∨ uargsAddrStart ≤ fin ∧ fin + stringBytes tab ≤ uargsEnd) := by
  induction tab generalizing start fin with
  | nil => simp [strtabWrites, Inside, pointerBytes, above]
  | cons _ rest ih =>
    have empty : rest = [] → stringBytes rest = 0 := by
      rintro rfl
      rfl
    simp only [strtabWrites, forall_mem_cons, Inside, pointerBytes, length_cons, length_nil, length_append,
      stringBytes_cons, reduceCtorEq, false_or]
    simp only [uargsEnd, uargsAddrStart, uargsNumPages, pageSize] at *
    constructor
    · rintro ⟨pointer, bytes, others⟩
      obtain ⟨pointers, none | strings⟩ := (ih (by omega)).mp others
      · have := empty none
        omega
      · omega
    · rintro ⟨pointers, strings⟩
      exact ⟨by omega, by omega, (ih (by omega)).mpr ⟨by omega, .inr (by omega)⟩⟩

theorem buildWrites_inside (above : uargsAddrStart ≤ start) :
    (∀ w ∈ buildWrites start tab, Inside w) ↔ strtabEnd start tab ≤ uargsEnd := by
  have empty : tab = [] → tab.length = 0 ∧ stringBytes tab = 0 := by
    rintro rfl
    exact ⟨rfl, rfl⟩
  rw [buildWrites, strtabWrites_inside above, strtabEnd]
  simp only [uargsEnd, uargsAddrStart, uargsNumPages, pageSize] at *
  constructor
  · rintro ⟨pointers, none | strings⟩
    · have := empty none
      omega
    · omega
  · intro fits
    exact ⟨by omega, .inr (by omega)⟩

theorem strtabEnd_le (start : Nat) (tab : List (List UInt8)) : start ≤ strtabEnd start tab := by
  rw [strtabEnd]
  omega

theorem strtabEnd_small (fits : strtabEnd start tab ≤ uargsEnd) : strtabEnd start tab % 2 ^ 32 = strtabEnd start tab :=
  Nat.mod_eq_of_lt (fits.trans_lt (by decide))

theorem argumentWrites_inside :
    (∀ w ∈ buildWrites uargsAddrStart argv ++ buildWrites (strtabEnd uargsAddrStart argv % 2 ^ 32) envp, Inside w) ↔
      strtabEnd (strtabEnd uargsAddrStart argv) envp ≤ uargsEnd := by
  have above := strtabEnd_le uargsAddrStart argv
  rw [forall_mem_append, buildWrites_inside le_rfl]
  constructor
  · rintro ⟨first, second⟩
    rw [strtabEnd_small first] at second
    exact (buildWrites_inside above).mp second
  · intro fits
    have first := (strtabEnd_le _ envp).trans fits
    rw [strtabEnd_small first]
    exact ⟨first, (buildWrites_inside above).mpr fits⟩

/-- The arguments stay in their pages exactly if both tables are there and fit together. -/
theorem arguments_inside_iff (argv envp : Option (List (List UInt8))) :
    (∃ writes, argumentWrites argv envp = .ok writes ∧ ∀ w ∈ writes, Inside w) ↔
      ∃ args env, argv = some args ∧ envp = some env ∧
        strtabEnd (strtabEnd uargsAddrStart args) env ≤ uargsEnd := by
  cases argv with
  | none => simp [argumentWrites]
  | some =>
    cases envp with
    | none => simp [argumentWrites]
    | some =>
      simp only [argumentWrites, Except.ok.injEq, exists_eq_left', argumentWrites_inside]
      simp

/-- 256 empty arguments, and a table that is not there. -/
theorem arguments_overflow : (argumentWrites (some (replicate 256 [])) (some [])).toOption.map
      (fun writes => writes.all (fun w => w.1 + w.2.length ≤ uargsEnd)) = some false ∧
    argumentWrites none (some []) = .error (.outOfBounds "tab" 0) := by
  decide +kernel

/-- The pointers of a table lie in one row, and the strings in another. -/
structure Layout (start fin : Nat) (tab : List (List UInt8)) (writes : List (Nat × List UInt8)) : Prop where
  apart : writes.Pairwise Beside
  inside : ∀ w ∈ writes, start ≤ w.1 ∧ w.1 + w.2.length ≤ start + 4 * (tab.length + 1) ∨
    fin ≤ w.1 ∧ w.1 + w.2.length ≤ fin + stringBytes tab
  last : (start + 4 * tab.length, pointerBytes 0) ∈ writes
  entry : ∀ i string, tab[i]? = some string →
    ∃ p, (start + 4 * i, pointerBytes p) ∈ writes ∧ (p, string ++ [0]) ∈ writes

theorem strtabWrites_layout (below : start + 4 * (tab.length + 1) ≤ fin) (small : fin + stringBytes tab < 2 ^ 32) :
    Layout start fin tab (strtabWrites start fin tab) := by
  induction tab generalizing start fin with
  | nil => exact ⟨by simp [strtabWrites], by simp [strtabWrites, pointerBytes], by simp [strtabWrites], by simp⟩
  | cons string rest ih =>
    rw [length_cons] at below
    rw [stringBytes_cons] at small
    have room : start + 4 + 4 * (rest.length + 1) ≤ fin + string.length + 1 := by omega
    have later := ih room (by omega)
    have next : ∀ i, start + 4 + 4 * i = start + 4 * (i + 1) := by omega
    rw [strtabWrites, Nat.mod_eq_of_lt (by omega), Nat.mod_eq_of_lt (by omega)]
    refine ⟨?_, ?_, ?_, ?_⟩
    · simp only [pairwise_cons, forall_mem_cons, Beside, pointerBytes, length_cons, length_nil, length_append]
      refine ⟨⟨by omega, fun w mem => ?_⟩, fun w mem => ?_, later.apart⟩
      all_goals
        have := later.inside w mem
        omega
    · simp only [forall_mem_cons, stringBytes_cons, pointerBytes, length_cons, length_nil, length_append]
      refine ⟨by omega, by omega, fun w mem => ?_⟩
      have := later.inside w mem
      omega
    · exact mem_cons_of_mem _ (mem_cons_of_mem _ (next _ ▸ later.last))
    · intro i found known
      cases i with
      | zero =>
        cases known
        exact ⟨fin, mem_cons_self, mem_cons_of_mem _ mem_cons_self⟩
      | succ i =>
        obtain ⟨p, pointed, copied⟩ := later.entry i found known
        rw [next] at pointed
        exact ⟨p, mem_cons_of_mem _ (mem_cons_of_mem _ pointed), mem_cons_of_mem _ (mem_cons_of_mem _ copied)⟩

theorem buildWrites_layout (fits : strtabEnd start tab ≤ uargsEnd) :
    Layout start (start + 4 * (4 * tab.length + 1)) tab (buildWrites start tab) := by
  have small := fits.trans_lt (show uargsEnd < 2 ^ 32 by decide)
  rw [strtabEnd] at small
  rw [buildWrites, Nat.mod_eq_of_lt (by omega)]
  exact strtabWrites_layout (by omega) small

/-- An array of pointers to copies of the strings, `NULL` behind them. -/
structure Laid (memory : Nat → UInt8) (start : Nat) (tab : List (List UInt8)) : Prop where
  terminated : Data.span memory (start + 4 * tab.length) 4 = pointerBytes 0
  copied : ∀ i string, tab[i]? = some string → ∃ p < 2 ^ 32, Data.span memory (start + 4 * i) 4 = pointerBytes p ∧
    Data.span memory p (string.length + 1) = string ++ [0]

theorem Layout.laid {writes all : List (Nat × List UInt8)} (layout : Layout start fin tab writes)
    (among : ∀ w ∈ writes, w ∈ all) (inside : ∀ w ∈ all, Inside w) (apart : all.Pairwise Beside)
    (memory : Nat → UInt8) : Laid (stores memory all) start tab := by
  refine ⟨span_stores _ apart (among _ layout.last), fun i string known => ?_⟩
  obtain ⟨p, pointed, copied⟩ := layout.entry i string known
  have bytes := span_stores memory apart (among _ copied)
  have low := (inside _ (among _ copied)).2
  simp only [uargsEnd, uargsAddrStart, uargsNumPages, pageSize] at low
  rw [length_append] at bytes
  exact ⟨p, by omega, span_stores _ apart (among _ pointed), bytes⟩

theorem arguments_laid (argv envp : List (List UInt8))
    (fits : strtabEnd (strtabEnd uargsAddrStart argv) envp ≤ uargsEnd) :
    ∃ writes, argumentWrites (some argv) (some envp) = .ok writes ∧ writes.Pairwise Beside ∧
      ∀ memory, Laid (stores memory writes) uargsAddrStart argv ∧
        Laid (stores memory writes) (strtabEnd uargsAddrStart argv) envp := by
  have inside := argumentWrites_inside.mpr fits
  have room := Nat.le_trans (strtabEnd_le _ envp) fits
  have first := buildWrites_layout room
  have second := buildWrites_layout fits
  rw [argumentWrites, strtabEnd_small room]
  rw [strtabEnd_small room] at inside
  have apart : (buildWrites uargsAddrStart argv ++ buildWrites (strtabEnd uargsAddrStart argv) envp).Pairwise
      Beside := by
    refine pairwise_append.mpr ⟨first.apart, second.apart, fun v early w late => .inl ?_⟩
    have before := first.inside v early
    have behind := second.inside w late
    rw [strtabEnd] at behind
    omega
  exact ⟨_, rfl, apart, fun memory => ⟨first.laid (fun _ => mem_append_left _) inside apart memory,
    second.laid (fun _ => mem_append_right _) inside apart memory⟩⟩

theorem arguments_laid_two : ∃ writes, argumentWrites (some [[97], [98, 99]]) (some [[]]) = .ok writes ∧
    writes.Pairwise Beside :=
  let ⟨writes, ran, apart, _⟩ := arguments_laid [[97], [98, 99]] [[]] (by decide)
  ⟨writes, ran, apart⟩

section

/-! A path is the file it is opened as, if it can be; `binfmtLoad` is what `binfmt_load` returns for a file and its
tables, if it does. -/

variable {φ α : Type} (binfmtLoad : φ → α → Option Int)

/-- Its type is `bool`. -/
def executePath (tables : α) : Option φ → Option Int
  | none => some 0
  | some file => (binfmtLoad file tables).map (fun ret => if ret = 0 then 0 else 1)

/-- `do_execve` is between them, and returns what it is given. -/
def sysExecve (tables : α) : Except Int (Option φ) → Option Int
  | .error ret => some ret
  | .ok path => executePath binfmtLoad tables path

def sysFexecve (tables : α) : Option (Option φ) → Option Int
  | none => some (-9)
  | some path => executePath binfmtLoad tables path

/-- Whatever error loading ends with, the caller is given 1. -/
theorem execve_error (file : φ) (tables : α) (e : Int) (failed : binfmtLoad file tables = some e) (negative : e < 0) :
    sysExecve binfmtLoad tables (.ok (some file)) = some 1 ∧ sysFexecve binfmtLoad tables (some (some file)) = some 1 ∧
      e ≠ 1 := by
  have reported : executePath binfmtLoad tables (some file) = some 1 := by
    simp [executePath, failed, Int.ne_of_lt negative]
  exact ⟨reported, reported, by omega⟩

end

/-- What `binfmt_load` returns, if it does, where ELF is the only format. -/
def elfLoad {φ : Type} (ops : FileOps φ) (current : ArchThreadData) (s : Store) (file : φ)
    (tables : List (List UInt8) × List (List UInt8)) : Option Int :=
  match loadElf ops file tables.1 tables.2 current s with
  | .ok (_, _, .returned errno) => some errno
  | _ => none

def bootedLoad (ops : FileOps Unit) : Option (Unit → List (List UInt8) × List (List UInt8) → Option Int) :=
  (bootSpace [2, 3, 4, 5, 6, 7]).bind fun start => (cacheInit start.store.kernel).toOption.map fun kernel =>
    elfLoad ops start.task { start.store with kernel }

theorem execve_error_io : ∃ load, bootedLoad { sevens with seek := fun _ file => (file, 1) } = some load ∧
    load () ([], []) = some (-eio) ∧ sysExecve load ([], []) (.ok (some ())) = some 1 := by
  obtain ⟨load, booted, failed⟩ : ∃ load ∈ bootedLoad { sevens with seek := fun _ file => (file, 1) },
      load () ([], []) = some (-eio) := by decide +kernel
  exact ⟨load, booted, failed, (execve_error load () ([], []) (-eio) failed (by decide)).1⟩

/-- A file of sevens is no ELF file. -/
theorem execve_not_executable : ∃ load, bootedLoad sevens = some load ∧ load () ([], []) = some (-enoexec) ∧
    sysExecve load ([], []) (.ok (some ())) = some 1 := by
  have outcome : ∃ load ∈ bootedLoad sevens, load () ([], []) = some (-enoexec) ∧
      sysExecve load ([], []) (.ok (some ())) = some 1 := by decide +kernel
  exact outcome

end KOs.Fs.Exec
