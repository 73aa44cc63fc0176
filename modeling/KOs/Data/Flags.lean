namespace KOs.Data

/-! Sets of bits in a word, tested against masks. -/

def hasFlag (flags mask : Nat) : Bool := flags &&& mask != 0

def clearFlag (flags mask : Nat) : Nat := flags ^^^ (flags &&& mask)

theorem or_ne_zero (a b : Nat) : (a ||| b != 0) = (a != 0 || b != 0) := by
  rw [Bool.eq_iff_iff]
  simp only [bne_iff_ne, Bool.or_eq_true, ne_eq, Nat.or_eq_zero_iff, Decidable.not_and_iff_not_or_not]

theorem hasFlag_or (flags other mask : Nat) :
    hasFlag (flags ||| other) mask = (hasFlag flags mask || hasFlag other mask) := by
  rw [hasFlag, Nat.and_or_distrib_right, or_ne_zero]
  rfl

theorem hasFlag_mask_or (flags mask other : Nat) :
    hasFlag flags (mask ||| other) = (hasFlag flags mask || hasFlag flags other) := by
  rw [hasFlag, Nat.and_or_distrib_left, or_ne_zero]
  rfl

def bit (n : Nat) : UInt32 := 1 <<< UInt32.ofNat n

def hasBit (set : UInt32) (n : Nat) : Bool := set &&& bit n != 0

section Bits

variable {set other : UInt32} {m n : Nat}

section

variable (small : n < 32)
include small

theorem bit_toBitVec : (bit n).toBitVec = BitVec.twoPow 32 n := by
  have size : ((UInt32.ofNat n).toBitVec % 32).toNat = n := by
    simp
    omega
  rw [bit, BitVec.twoPow_eq, UInt32.toBitVec_shiftLeft, BitVec.shiftLeft_eq', size]
  rfl

theorem hasBit_eq_getLsbD : hasBit set n = set.toBitVec.getLsbD n := by
  rw [hasBit, Bool.eq_iff_iff, bne_iff_ne, ne_eq, ← UInt32.toBitVec_inj, UInt32.toBitVec_and, bit_toBitVec small,
    BitVec.and_twoPow]
  cases bit : set.toBitVec.getLsbD n with
  | false => simp
  | true =>
    have nonzero : BitVec.twoPow 32 n ≠ 0#32 := by
      intro zero
      have := congrArg (fun word => word.getLsbD n) zero
      simp [small] at this
    simpa using nonzero

theorem hasBit_or : hasBit (set ||| other) n = (hasBit set n || hasBit other n) := by
  simp [hasBit_eq_getLsbD small]

theorem hasBit_and : hasBit (set &&& other) n = (hasBit set n && hasBit other n) := by
  simp [hasBit_eq_getLsbD small]

theorem hasBit_not : hasBit (~~~set) n = !hasBit set n := by
  simp [hasBit_eq_getLsbD _, small]

end

theorem hasBit_bit (first : m < 32) (second : n < 32) : hasBit (bit m) n = decide (m = n) := by
  rw [hasBit_eq_getLsbD second, bit_toBitVec first, BitVec.getLsbD_twoPow, decide_eq_true first, Bool.true_and]

theorem hasBit_zero : hasBit 0 n = false := by
  simp [hasBit]

end Bits

end KOs.Data
