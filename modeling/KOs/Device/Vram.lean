import KOs.Common.Fault
import Mathlib.Logic.Function.Basic

namespace KOs.Device

open KOs.Common Function

/-! The escape sequences in what is written to `driver/console/vram.c`.  What is drawn is left out. -/

def escseqBuffSize := 128
def csiSingle : UInt8 := 0x9B
def csiDoubleParta : UInt8 := 0x1B
def csiDoublePartb : UInt8 := '['.toUInt8

inductive TermState where
  | normal
  | escseq
  | expectCsiPartb
deriving DecidableEq

structure Console where
  state : TermState
  escseqBuff : Nat → UInt8
  escseqBuffFront : Nat
  /-- `n`, `m` and `c` of the calls of `execute_escseq`. -/
  executed : List (Int32 × Int32 × UInt8)

namespace Console

/-- The loop of `read_escseq_args` with `left` bytes to go; `v` is `m` if `second`. -/
def readLoop (buff : Nat → UInt8) : (left off : Nat) → (tmp n m : Int32) → (second : Bool) →
    Nat × Int32 × Int32 × UInt8
  | 0, off, _, n, m, _ => (off, n, m, 0)
  | left + 1, off, tmp, n, m, second =>
      let d := buff off
      if '0'.toUInt8 ≤ d ∧ d ≤ '9'.toUInt8 then
        let digit := (d - '0'.toUInt8).toUInt32.toInt32
        readLoop buff left (off + 1) ((if tmp = -1 then 0 else tmp) * 10 + digit) n m second
      else
        let n := if tmp = -1 ∨ second then n else tmp
        let m := if tmp = -1 ∨ !second then m else tmp
        if d = ';'.toUInt8 ∧ !second then readLoop buff left (off + 1) (-1) n m true
        else (off + 1, n, m, d)

def readEscseqArgs (buff : Nat → UInt8) (front : Nat) : Nat × Int32 × Int32 × UInt8 :=
  readLoop buff front 0 (-1) (-1) (-1) false

def interpretEscseq (con : Console) : Console :=
  { con with executed := con.executed ++ [(readEscseqArgs con.escseqBuff con.escseqBuffFront).2] }

def isTerminatingChar (c : UInt8) : Bool := '@'.toUInt8 ≤ c && c ≤ '~'.toUInt8

def putEscseqBuff (c : UInt8) (con : Console) : Except Fault Console :=
  if escseqBuffSize ≤ con.escseqBuffFront then .error (.outOfBounds "escseq_buff" con.escseqBuffFront)
  else
    let con := { con with
      escseqBuff := update con.escseqBuff con.escseqBuffFront c
      escseqBuffFront := con.escseqBuffFront + 1 }
    let con := if isTerminatingChar c then interpretEscseq con else con
    .ok (if isTerminatingChar c ∨ con.escseqBuffFront = escseqBuffSize then
        { con with escseqBuffFront := 0, state := .normal }
      else con)

def vramHandle (c : UInt8) (con : Console) : Except Fault Console :=
  match con.state with
  | .normal =>
      .ok { con with
        state := if c = csiSingle then .escseq else if c = csiDoubleParta then .expectCsiPartb else .normal }
  | .expectCsiPartb => .ok { con with state := if c = csiDoublePartb then .escseq else .normal }
  | .escseq => putEscseqBuff c con

def vramInit (buff : Nat → UInt8) (con : Console) : Console := { con with escseqBuff := buff, escseqBuffFront := 0 }

/-- `vram_handle` beside the bytes since the sequence started. -/
def track (p : Console × List UInt8) (c : UInt8) : Except Fault (Console × List UInt8) := do
  let con ← vramHandle c p.1
  .ok (con, if p.1.state = .escseq ∧ con.state = .escseq then p.2 ++ [c] else [])

variable {con : Console} {seq : List UInt8}

structure Buffered (con : Console) (seq : List UInt8) : Prop where
  front : con.escseqBuffFront = seq.length
  bound : con.escseqBuffFront < escseqBuffSize
  idle : con.state ≠ .escseq → con.escseqBuffFront = 0
  holds : ∀ i < seq.length, con.escseqBuff i = seq.getD i 0
  plain : ∀ c ∈ seq, isTerminatingChar c = false

def final (seq : List UInt8) (c : UInt8) : Bool := isTerminatingChar c || seq.length + 1 == escseqBuffSize

def Continues (con : Console) (seq : List UInt8) (c : UInt8) : Prop :=
  vramHandle c con = .ok
    { state := if final seq c then .normal else .escseq
      escseqBuff := update con.escseqBuff seq.length c
      escseqBuffFront := if final seq c then 0 else seq.length + 1
      executed := con.executed ++ if isTerminatingChar c then
        [(readEscseqArgs ((seq ++ [c]).getD · 0) (seq.length + 1)).2] else [] }

theorem readLoop_congr {buff buff' : Nat → UInt8} {left off : Nat} {tmp n m : Int32} {second : Bool}
    (same : ∀ i < off + left, buff i = buff' i) :
    readLoop buff left off tmp n m second = readLoop buff' left off tmp n m second := by
  induction left generalizing off tmp n m second with
  | zero => rfl
  | succ left ih =>
    have rest : ∀ i < off + 1 + left, buff i = buff' i := fun i small => same i (by omega)
    simp only [readLoop, same off (by omega), ih rest]

section

variable (buffered : Buffered con seq)
include buffered

theorem Buffered.appended (c : UInt8) :
    ∀ i < seq.length + 1, update con.escseqBuff seq.length c i = (seq ++ [c]).getD i 0 := by
  intro i small
  rcases Nat.lt_succ_iff_lt_or_eq.mp small with old | rfl
  · rw [update_of_ne (Nat.ne_of_lt old), buffered.holds i old]
    simp [List.getElem?_append_left old]
  · simp

theorem Buffered.continues (here : con.state = .escseq) (c : UInt8) : Continues con seq c := by
  have room : ¬ escseqBuffSize ≤ con.escseqBuffFront := Nat.not_le.mpr buffered.bound
  have read : readEscseqArgs (update con.escseqBuff seq.length c) (seq.length + 1) = readEscseqArgs ((seq ++ [c]).getD · 0) _ :=
    readLoop_congr fun i small => buffered.appended c i (by omega)
  rw [Continues, vramHandle, here]
  dsimp only
  rw [putEscseqBuff, if_neg room, buffered.front, ← read]
  cases term : isTerminatingChar c with
  | true => simp [interpretEscseq, final, term]
  | false => by_cases full : seq.length + 1 = escseqBuffSize <;> simp [final, term, here, full]

theorem Buffered.step (c : UInt8) : ∃ p, track (con, seq) c = .ok p ∧ Buffered p.1 p.2 := by
  by_cases here : con.state = .escseq
  · refine ⟨_, by rw [track, buffered.continues here]; rfl, ?_⟩
    cases last : final seq c with
    | true => exact ⟨by simp, Nat.zero_lt_succ _, fun _ => rfl, by simp, by simp⟩
    | false =>
      have bound := buffered.front ▸ buffered.bound
      simp only [final, Bool.or_eq_false_iff, beq_eq_false_iff_ne] at last
      simp only [here, and_self, if_true, Bool.false_eq_true, if_false]
      refine ⟨by simp, by dsimp only; omega, by simp, by simpa using buffered.appended c, ?_⟩
      simpa [or_imp, forall_and, last] using buffered.plain
  · have empty := buffered.idle here
    obtain ⟨state, ran⟩ : ∃ state, vramHandle c con = .ok { con with state } := by
      cases state : con.state with
      | escseq => contradiction
      | normal | expectCsiPartb => exact ⟨_, by rw [vramHandle, state]⟩
    refine ⟨_, by rw [track, ran]; rfl, ?_⟩
    simp only [here, false_and, if_false]
    exact ⟨empty, buffered.bound, fun _ => empty, nofun, nofun⟩

end

theorem escseq_buffered (buff : Nat → UInt8) (con : Console) (stream : List UInt8) :
    ∃ p, stream.foldlM track (con.vramInit buff, []) = .ok p ∧ Buffered p.1 p.2 ∧
      (p.1.state = .escseq → ∀ c, Continues p.1 p.2 c) := by
  have run : ∀ p : Console × List UInt8, Buffered p.1 p.2 → ∃ p', stream.foldlM track p = .ok p' ∧ Buffered p'.1 p'.2 := by
    induction stream with
    | nil => exact fun p buffered => ⟨p, rfl, buffered⟩
    | cons c _ ih =>
      intro p buffered
      obtain ⟨next, ran, after⟩ := buffered.step c
      obtain ⟨last, rest, final⟩ := ih next after
      exact ⟨last, by rw [List.foldlM_cons, ran]; exact rest, final⟩
  obtain ⟨p, ran, buffered⟩ := run (con.vramInit buff, []) ⟨rfl, Nat.zero_lt_succ _, fun _ => rfl, nofun, nofun⟩
  exact ⟨p, ran, buffered, buffered.continues⟩

end Console

end KOs.Device
