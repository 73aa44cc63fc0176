import KOs.Common.Fault
import KOs.Data.Circular
import KOs.Data.Word

namespace KOs.Arch

open KOs.Common KOs.Data List

/-! The frame that a signal handler is entered with, from `arch/pl.c`.

The state of the interrupted user code is saved on its own stack, and the handler returns
to `_sigreturn`, which reads it back from whatever address it is given.
-/

structure Registers where
  edi : UInt32
  esi : UInt32
  ebp : UInt32
  esp : UInt32
  ebx : UInt32
  edx : UInt32
  ecx : UInt32
  eax : UInt32
deriving DecidableEq, Repr

structure ExecState where
  eip : UInt32
  cs : UInt32
  eflags : UInt32
deriving DecidableEq, Repr

structure StackState where
  esp : UInt32
  ss : UInt32
deriving DecidableEq, Repr

structure CpuState where
  reg : Registers
  exec : ExecState
  stack : StackState
deriving DecidableEq, Repr

structure Sigdata where
  restoreMask : UInt32
  state : CpuState
deriving DecidableEq, Repr

def splUser : UInt32 := 0x3
def selUserCode : UInt32 := 0x20
def selUserData : UInt32 := 0x28

def eflagsIf : UInt32 := 0x200

def eflagsUserMask : UInt32 := 0x8CFF

/-- The I/O privilege level, `NT` and `VM`. -/
def eflagsPrivileged : UInt32 := 0x3000 ||| 0x4000 ||| 0x20000

/-- What the kernel reaches at the addresses of the current task. -/
structure UserMemory where
  byte : Nat → UInt8
  mapped : Nat → Bool

namespace UserMemory

def isMapped (memory : UserMemory) (address count : Nat) : Bool :=
  (List.range count).all (fun i => memory.mapped (address + i))

def write (address : Nat) (bytes : List UInt8) (memory : UserMemory) : Except Fault UserMemory :=
  if memory.isMapped address bytes.length then .ok { memory with byte := store memory.byte address bytes }
  else .error (.outOfBounds "memory" address)

def read (address count : Nat) (memory : UserMemory) : Except Fault (List UInt8) :=
  if memory.isMapped address count then .ok (span memory.byte address count)
  else .error (.outOfBounds "memory" address)

def readWord (address : Nat) (memory : UserMemory) : Except Fault UInt32 :=
  (memory.read address 4).map (fun bytes => UInt32.ofNat (wordOf bytes))

end UserMemory

namespace Sigdata

def words (sd : Sigdata) : List UInt32 :=
  [sd.restoreMask,
    sd.state.reg.edi, sd.state.reg.esi, sd.state.reg.ebp, sd.state.reg.esp,
    sd.state.reg.ebx, sd.state.reg.edx, sd.state.reg.ecx, sd.state.reg.eax,
    sd.state.exec.eip, sd.state.exec.cs, sd.state.exec.eflags,
    sd.state.stack.esp, sd.state.stack.ss]

def bytes (sd : Sigdata) : List UInt8 := sd.words.flatMap (fun word => wordBytes word.toNat)

def wordAt (bytes : List UInt8) (i : Nat) : UInt32 := UInt32.ofNat (wordOf ((bytes.drop (4 * i)).take 4))

def ofBytes (bytes : List UInt8) : Sigdata where
  restoreMask := wordAt bytes 0
  state :=
    { reg :=
        { edi := wordAt bytes 1, esi := wordAt bytes 2, ebp := wordAt bytes 3, esp := wordAt bytes 4,
          ebx := wordAt bytes 5, edx := wordAt bytes 6, ecx := wordAt bytes 7, eax := wordAt bytes 8 }
      exec := { eip := wordAt bytes 9, cs := wordAt bytes 10, eflags := wordAt bytes 11 }
      stack := { esp := wordAt bytes 12, ss := wordAt bytes 13 } }

end Sigdata

def sizeofSigdata : Nat := 56

/-- `sp & ~(alignment - 1)` -/
def alignDown (alignment sp : Nat) : Nat := sp &&& (wordSize - alignment)

def sigdataAddress (esp : UInt32) : Nat := alignDown 16 (wsub esp.toNat sizeofSigdata)

def trampAddress (esp : UInt32) : Nat := alignDown 256 (wsub (sigdataAddress esp) 8)

def archSetupSigaction (state : CpuState) (sighandler sigtramp restoreMask : UInt32) (memory : UserMemory) :
    Except Fault (CpuState × UserMemory) := do
  bugOn (state.exec.cs != selUserCode ||| splUser) "src/arch/pl.c" 239
  let sd := sigdataAddress state.stack.esp
  let memory ← memory.write sd (Sigdata.bytes { restoreMask, state })
  let sp := trampAddress state.stack.esp
  let memory ← memory.write (wadd sp 4) (wordBytes sd)
  let memory ← memory.write (wsub sp 4) (wordBytes sigtramp.toNat)
  let sp := wsub sp 4
  return ({ state with
    stack := { state.stack with esp := UInt32.ofNat sp }
    exec := { state.exec with eip := sighandler } }, memory)

/-- Returns the state and the mask of the task. -/
def archSetupSigreturn (state : CpuState) (sp : UInt32) (memory : UserMemory) :
    Except Fault (CpuState × UInt32) := do
  bugOn (state.exec.cs != selUserCode ||| splUser) "src/arch/pl.c" 267
  let bytes ← memory.read sp.toNat sizeofSigdata
  let sd := Sigdata.ofBytes bytes
  let exec := { sd.state.exec with eflags := sd.state.exec.eflags &&& eflagsUserMask ||| eflagsIf,
                                   cs := selUserCode ||| splUser }
  return ({ sd.state with exec, stack := { sd.state.stack with ss := selUserData ||| splUser } }, sd.restoreMask)

theorem word_round_trip (word : UInt32) : UInt32.ofNat (wordOf (wordBytes word.toNat)) = word := by
  rw [wordOf_wordBytes word.toNat_lt, UInt32.ofNat_toNat]

theorem Sigdata.wordAt_words (words : List UInt32) (i : Nat) :
    wordAt (words.flatMap (fun word => wordBytes word.toNat)) i = words.getD i 0 := by
  induction words generalizing i with
  | nil => simp [wordAt, wordOf]
  | cons word words ih =>
    cases i with
    | zero =>
      have first : ((word :: words).flatMap (fun word => wordBytes word.toNat)).take 4 = wordBytes word.toNat :=
        take_left' (wordBytes_length _)
      simp only [wordAt, Nat.mul_zero, drop_zero, first, word_round_trip, getD_cons_zero]
    | succ i =>
      have rest : ((word :: words).flatMap (fun word => wordBytes word.toNat)).drop (4 * (i + 1)) =
          (words.flatMap (fun word => wordBytes word.toNat)).drop (4 * i) := by
        rfl
      simpa only [wordAt, rest, getD_cons_succ] using ih i

theorem Sigdata.ofBytes_bytes (sd : Sigdata) : ofBytes sd.bytes = sd := by
  simp only [ofBytes, bytes, wordAt_words]
  rfl

@[simp] theorem Sigdata.bytes_length (sd : Sigdata) : sd.bytes.length = sizeofSigdata := rfl

/-- Below the stack pointer there are 1024 bytes of stack. -/
def StackBelow (esp : UInt32) (memory : UserMemory) : Prop :=
  1024 ≤ esp.toNat ∧ ∀ address, esp.toNat ≤ address + 1024 → address < esp.toNat → memory.mapped address = true

variable {address : Nat}
variable {memory : UserMemory}

section Layout

variable {esp : UInt32}

theorem alignDown_eq {k sp : Nat} (small : sp < wordSize) (bits : k ≤ 32) :
    alignDown (2 ^ k) sp = 2 ^ k * (sp / 2 ^ k) := and_highBits small bits

/-- Where the parts of the frame are, from the top down. -/
theorem frame_layout (room : 1024 ≤ esp.toNat) :
    sigdataAddress esp + sizeofSigdata ≤ esp.toNat ∧ trampAddress esp + 8 ≤ sigdataAddress esp ∧
      esp.toNat + 4 ≤ trampAddress esp + 1024 := by
  have small : esp.toNat < wordSize := esp.toNat_lt
  have below : wsub esp.toNat sizeofSigdata = esp.toNat - 56 := wsub_eq (by simp only [sizeofSigdata]; omega) small
  have data : sigdataAddress esp = 2 ^ 4 * ((esp.toNat - 56) / 2 ^ 4) := by
    rw [sigdataAddress, below]
    exact alignDown_eq (k := 4) (by omega) (by decide)
  have tramp : trampAddress esp = 2 ^ 8 * ((sigdataAddress esp - 8) / 2 ^ 8) := by
    rw [trampAddress, wsub_eq (by omega) (by omega)]
    exact alignDown_eq (k := 8) (by omega) (by decide)
  simp only [sizeofSigdata]
  omega

theorem StackBelow.isMapped {count : Nat} (stack : StackBelow esp memory) (lower : esp.toNat ≤ address + 1024)
    (upper : address + count ≤ esp.toNat) :
    memory.isMapped address count = true := by
  simp only [UserMemory.isMapped, all_eq_true, mem_range]
  intro i inside
  exact stack.2 _ (by omega) (by omega)

theorem StackBelow.write (stack : StackBelow esp memory) (byte : Nat → UInt8) (bytes : List UInt8)
    (lower : esp.toNat ≤ address + 1024) (upper : address + bytes.length ≤ esp.toNat) :
    UserMemory.write address bytes { memory with byte } = .ok { memory with byte := store byte address bytes } :=
  if_pos (stack.isMapped lower upper)

theorem UserMemory.readWord_mapped (mapped : memory.isMapped address 4 = true) :
    memory.readWord address = .ok (UInt32.ofNat (wordOf (span memory.byte address 4))) := by
  simp [readWord, read, mapped]

end Layout

def withFrame (sd : Sigdata) (sigtramp : UInt32) (memory : UserMemory) : UserMemory :=
  let data := sigdataAddress sd.state.stack.esp
  let tramp := trampAddress sd.state.stack.esp
  { memory with
    byte := store (store (store memory.byte data sd.bytes) (tramp + 4) (wordBytes data)) (tramp - 4)
      (wordBytes sigtramp.toNat) }

/-- Stated for any bytes, so that nobody has to compare those of the frame. -/
theorem UserMemory.isMapped_bytes (byte : Nat → UInt8) (memory : UserMemory) (address count : Nat) :
    UserMemory.isMapped { memory with byte } address count = memory.isMapped address count := rfl

theorem withFrame_isMapped (sd : Sigdata) (sigtramp : UInt32) (memory : UserMemory) (address count : Nat) :
    (withFrame sd sigtramp memory).isMapped address count = memory.isMapped address count := by
  exact UserMemory.isMapped_bytes _ _ _ _

variable {state : CpuState}

section Frame

variable {sigtramp restoreMask : UInt32}

theorem archSetupSigaction_frame (sighandler : UInt32) (user : state.exec.cs = selUserCode ||| splUser)
    (stack : StackBelow state.stack.esp memory) :
    archSetupSigaction state sighandler sigtramp restoreMask memory =
      .ok ({ state with
              stack := { state.stack with esp := UInt32.ofNat (trampAddress state.stack.esp - 4) }
              exec := { state.exec with eip := sighandler } },
        withFrame { restoreMask, state } sigtramp memory) := by
  obtain ⟨data, tramp, lowest⟩ := frame_layout stack.1
  have small : state.stack.esp.toNat < wordSize := state.stack.esp.toNat_lt
  have up : wadd (trampAddress state.stack.esp) 4 = trampAddress state.stack.esp + 4 := wadd_eq (by omega)
  have down : wsub (trampAddress state.stack.esp) 4 = trampAddress state.stack.esp - 4 :=
    wsub_eq (by have := stack.1; omega) (by omega)
  have saved : memory.write (sigdataAddress state.stack.esp) (Sigdata.bytes { restoreMask, state }) = .ok _ :=
    stack.write memory.byte _ (by omega) data
  have argument (byte : Nat → UInt8) := stack.write byte (wordBytes (sigdataAddress state.stack.esp))
    (show _ ≤ trampAddress state.stack.esp + 4 + 1024 by omega) (by rw [wordBytes_length]; omega)
  have returns (byte : Nat → UInt8) := stack.write byte (wordBytes sigtramp.toNat)
    (show _ ≤ trampAddress state.stack.esp - 4 + 1024 by omega) (by rw [wordBytes_length]; omega)
  simp only [archSetupSigaction, user, bne_self_eq_false, bugOn_false, up, down, saved, argument, returns, ok_bind]
  rfl

theorem withFrame_sigdata (sd : Sigdata) (sigtramp : UInt32) (room : 1024 ≤ sd.state.stack.esp.toNat) :
    span (withFrame sd sigtramp memory).byte (sigdataAddress sd.state.stack.esp) sizeofSigdata = sd.bytes := by
  obtain ⟨_, tramp, _⟩ := frame_layout room
  refine Eq.trans ?_ (span_store memory.byte (sigdataAddress sd.state.stack.esp) sd.bytes)
  apply span_congr
  intro i _
  simp only [withFrame]
  rw [store_outside (by rw [wordBytes_length]; omega), store_outside (by rw [wordBytes_length]; omega)]

theorem withFrame_argument (sd : Sigdata) (sigtramp : UInt32) :
    span (withFrame sd sigtramp memory).byte (trampAddress sd.state.stack.esp + 4) 4 =
      wordBytes (sigdataAddress sd.state.stack.esp) := by
  refine Eq.trans ?_ (span_store (store memory.byte (sigdataAddress sd.state.stack.esp) sd.bytes)
    (trampAddress sd.state.stack.esp + 4) (wordBytes (sigdataAddress sd.state.stack.esp)))
  apply span_congr
  intro i _
  simp only [withFrame]
  rw [store_outside (by rw [wordBytes_length]; omega)]

theorem withFrame_outside (sd : Sigdata) (sigtramp : UInt32) (room : 1024 ≤ sd.state.stack.esp.toNat)
    (outside : address + 1024 < sd.state.stack.esp.toNat ∨ sd.state.stack.esp.toNat ≤ address) :
    (withFrame sd sigtramp memory).byte address = memory.byte address := by
  obtain ⟨data, tramp, lowest⟩ := frame_layout room
  simp only [sizeofSigdata] at data
  simp only [withFrame]
  rw [store_outside (by rw [wordBytes_length]; omega), store_outside (by rw [wordBytes_length]; omega),
    store_outside (by rw [Sigdata.bytes_length, sizeofSigdata]; omega)]

end Frame

def Sigdata.restored (sd : Sigdata) : CpuState :=
  { sd.state with
    exec := { sd.state.exec with eflags := sd.state.exec.eflags &&& eflagsUserMask ||| eflagsIf,
                                 cs := selUserCode ||| splUser }
    stack := { sd.state.stack with ss := selUserData ||| splUser } }

variable {sp : UInt32}

theorem archSetupSigreturn_restores {sd : Sigdata} (user : state.exec.cs = selUserCode ||| splUser)
    (mapped : memory.isMapped sp.toNat sizeofSigdata = true) (saved : span memory.byte sp.toNat sizeofSigdata = sd.bytes) :
    archSetupSigreturn state sp memory = .ok (sd.restored, sd.restoreMask) := by
  simp only [archSetupSigreturn, user, bne_self_eq_false, bugOn_false, UserMemory.read, mapped, if_true, saved,
    Sigdata.ofBytes_bytes, ok_bind]
  rfl

theorem archSetupSigreturn_returns {after : CpuState} {mask : UInt32}
    (ran : archSetupSigreturn state sp memory = .ok (after, mask)) : ∃ sd : Sigdata, after = sd.restored := by
  obtain ⟨_, _, ran⟩ := bind_returns ran
  obtain ⟨bytes, _, ran⟩ := bind_returns ran
  cases ran
  exact ⟨Sigdata.ofBytes _, rfl⟩

theorem eflags_unprivileged (eflags : UInt32) : (eflags &&& eflagsUserMask ||| eflagsIf) &&& eflagsPrivileged = 0 := by
  apply UInt32.toBitVec_inj.mp
  simp only [UInt32.toBitVec_and, UInt32.toBitVec_or, BitVec.and_or_distrib_right, BitVec.and_assoc]
  have mask : eflagsUserMask.toBitVec &&& eflagsPrivileged.toBitVec = 0 := by decide
  have enabled : eflagsIf.toBitVec &&& eflagsPrivileged.toBitVec = 0 := by decide
  rw [mask, enabled]
  simp

theorem eflags_enabled (eflags : UInt32) : (eflags &&& eflagsUserMask ||| eflagsIf) &&& eflagsIf = eflagsIf := by
  apply UInt32.toBitVec_inj.mp
  simp only [UInt32.toBitVec_and, UInt32.toBitVec_or, BitVec.and_or_distrib_right, BitVec.and_assoc]
  have mask : eflagsUserMask.toBitVec &&& eflagsIf.toBitVec = 0 := by decide
  rw [mask]
  simp

/-- A handler is entered with a frame from which `_sigreturn` restores the state; and whatever it is given,
it returns to user mode. -/
theorem sigframe_round_trip :
    (∀ (state : CpuState) (sighandler sigtramp restoreMask : UInt32) (memory : UserMemory),
      state.exec.cs = selUserCode ||| splUser → StackBelow state.stack.esp memory →
      ∃ entered frame sd, archSetupSigaction state sighandler sigtramp restoreMask memory = .ok (entered, frame) ∧
        frame.readWord (entered.stack.esp.toNat + 8) = .ok sd ∧
        (∀ (interrupted : CpuState) (later : UserMemory), interrupted.exec.cs = selUserCode ||| splUser →
          later.isMapped sd.toNat sizeofSigdata = true →
          span later.byte sd.toNat sizeofSigdata = span frame.byte sd.toNat sizeofSigdata →
          ∃ restored, archSetupSigreturn interrupted sd later = .ok (restored, restoreMask) ∧
            restored.reg = state.reg ∧ restored.exec.eip = state.exec.eip ∧
            restored.stack.esp = state.stack.esp ∧
            restored.exec.eflags = state.exec.eflags &&& eflagsUserMask ||| eflagsIf) ∧
        entered.stack.esp.toNat + 12 ≤ sd.toNat ∧ sd.toNat + sizeofSigdata ≤ state.stack.esp.toNat ∧
        (∀ address, state.stack.esp.toNat ≤ address → frame.byte address = memory.byte address)) ∧
    ∀ (interrupted : CpuState) (sp : UInt32) (memory : UserMemory) (after : CpuState) (mask : UInt32),
      archSetupSigreturn interrupted sp memory = .ok (after, mask) →
      after.exec.cs = selUserCode ||| splUser ∧ after.stack.ss = selUserData ||| splUser ∧
        after.exec.eflags &&& eflagsIf = eflagsIf ∧ after.exec.eflags &&& eflagsPrivileged = 0 := by
  constructor
  · intro state sighandler sigtramp restoreMask memory user stack
    obtain ⟨data, tramp, lowest⟩ := frame_layout stack.1
    have small : state.stack.esp.toNat < wordSize := state.stack.esp.toNat_lt
    have pointer : (UInt32.ofNat (sigdataAddress state.stack.esp)).toNat = sigdataAddress state.stack.esp :=
      UInt32.toNat_ofNat_of_lt' (by simp only [UInt32.size, wordSize] at small ⊢; omega)
    have top : (UInt32.ofNat (trampAddress state.stack.esp - 4)).toNat = trampAddress state.stack.esp - 4 :=
      UInt32.toNat_ofNat_of_lt' (by simp only [UInt32.size, wordSize] at small ⊢; omega)
    have argument : trampAddress state.stack.esp - 4 + 8 = trampAddress state.stack.esp + 4 := by
      have := stack.1
      omega
    have mapped : (withFrame { restoreMask, state } sigtramp memory).isMapped (trampAddress state.stack.esp + 4) 4 =
        true := by
      rw [withFrame_isMapped]
      exact stack.isMapped (by omega) (by simp only [sizeofSigdata] at data; omega)
    refine ⟨_, _, UInt32.ofNat (sigdataAddress state.stack.esp), archSetupSigaction_frame sighandler user stack, ?_, ?_⟩
    · rw [top, argument, UserMemory.readWord_mapped mapped,
        withFrame_argument { restoreMask, state } sigtramp,
        wordOf_wordBytes (by simp only [wordSize] at small ⊢; omega)]
    · rw [pointer, top]
      refine ⟨?_, by omega, data, ?_⟩
      · intro interrupted later again laterMapped same
        rw [withFrame_sigdata { restoreMask, state } sigtramp stack.1] at same
        refine ⟨Sigdata.restored { restoreMask, state }, ?_, rfl, rfl, rfl, rfl⟩
        apply archSetupSigreturn_restores again
        · rw [pointer]
          exact laterMapped
        · rw [pointer]
          exact same
      · intro address above
        exact withFrame_outside { restoreMask, state } sigtramp stack.1 (Or.inr above)
  · intro interrupted sp memory after mask ran
    obtain ⟨sd, rfl⟩ := archSetupSigreturn_returns ran
    exact ⟨rfl, rfl, eflags_enabled _, eflags_unprivileged _⟩

def userState : CpuState where
  reg := { edi := 1, esi := 2, ebp := 3, esp := 4, ebx := 5, edx := 6, ecx := 7, eax := 8 }
  exec := { eip := 0x8048000, cs := 0x23, eflags := 0x3246 }
  stack := { esp := 0xB0007FFD, ss := 0x2B }

def mappedMemory : UserMemory := { byte := fun _ => 0, mapped := fun _ => true }

theorem sigframe_round_trip_user : ∃ entered frame sd restored,
    archSetupSigaction userState 0x8049000 0x804A000 0x10 mappedMemory = .ok (entered, frame) ∧
      archSetupSigreturn userState sd frame = .ok (restored, 0x10) ∧ restored.reg = userState.reg ∧
      restored.exec.eflags = 0x246 ∧ restored.exec.eflags &&& eflagsPrivileged = 0 := by
  have stack : StackBelow userState.stack.esp mappedMemory := ⟨by decide, fun _ _ _ => rfl⟩
  obtain ⟨entered, frame, sd, ran, _, again, _⟩ :=
    sigframe_round_trip.1 userState 0x8049000 0x804A000 0x10 mappedMemory rfl stack
  have mapped : frame.isMapped sd.toNat sizeofSigdata = true := by
    rw [archSetupSigaction_frame _ rfl stack] at ran
    cases ran
    rw [withFrame_isMapped]
    simp [UserMemory.isMapped, mappedMemory]
  obtain ⟨restored, returned, reg, _, _, eflags⟩ := again userState frame rfl mapped rfl
  obtain ⟨_, _, _, privileged⟩ := sigframe_round_trip.2 userState sd frame restored _ returned
  exact ⟨entered, frame, sd, restored, ran, returned, reg, eflags.trans (by decide), privileged⟩

end KOs.Arch
