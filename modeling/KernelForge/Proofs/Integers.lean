import KernelForge.Device.Arithmetic

/-!
# Integers are two's complement words

Integers are computed on 64-bit words and cut to their width. Cutting commutes with every operator
(`ofBits_word64`), so what an operator gives is what the operator on bit vectors of the width gives.
-/

namespace KernelForge.Device

open Binary (mask signExtend word64)
open Spirv (Opcode MathOp)
open Value (asSigned int ofBits)
open BitVec (intMin)
open BitVec (eq_of_toInt_eq ofInt_toInt)

variable {w : Nat}

/-! ## Operators on bit vectors -/

section Operators

variable (x y : BitVec w)

/-- Operators that have a result for all words; a shift is by the second word modulo the width. -/
def totalWord? : Opcode → Option (BitVec w)
  | .iAdd => some (x + y)
  | .iSub => some (x - y)
  | .iMul => some (x * y)
  | .bitwiseAnd => some (x &&& y)
  | .bitwiseOr => some (x ||| y)
  | .bitwiseXor => some (x ^^^ y)
  | .shiftLeftLogical => some (x <<< (y.toNat % w))
  | .shiftRightLogical => some (x >>> (y.toNat % w))
  | .shiftRightArithmetic => some (x.sshiftRight (y.toNat % w))
  | _ => none

def comparison? : Opcode → Option Bool
  | .iEqual => some (x == y)
  | .iNotEqual => some (x != y)
  | .uLessThan => some (x.ult y)
  | .uLessThanEqual => some (x.ule y)
  | .uGreaterThan => some (y.ult x)
  | .uGreaterThanEqual => some (y.ule x)
  | .sLessThan => some (x.slt y)
  | .sLessThanEqual => some (x.sle y)
  | .sGreaterThan => some (y.slt x)
  | .sGreaterThanEqual => some (y.sle x)
  | _ => none

def unsignedDivision? : Opcode → Option (BitVec w)
  | .uDiv => some (x / y)
  | .uMod => some (x % y)
  | _ => none

/-- The quotient is truncated. A remainder has the sign of the dividend, a modulus that of the
divisor. -/
def signedDivision? : Opcode → Option (BitVec w)
  | .sDiv => some (x.sdiv y)
  | .sRem => some (x.srem y)
  | .sMod => some (x.smod y)
  | _ => none

def wordMath? : MathOp → Option (BitVec w)
  | .sAbs => some x.abs
  | .clz => some x.clz
  | .popcount => some x.cpop
  | _ => none

def wordsMath? : MathOp → Option (BitVec w)
  | .sMin => some (if x.sle y then x else y)
  | .sMax => some (if x.sle y then y else x)
  | .uMin => some (if x.ule y then x else y)
  | .uMax => some (if x.ule y then y else x)
  | _ => none

end Operators

/-! ## Words of 64 bits -/

/-- Cutting a 64-bit word to a width gives the word of that width. -/
theorem ofBits_word64 (hw : w ≤ 64) (n : Int) :
    ofBits (word64 n) w = .int (BitVec.ofInt w n).toNat w := by
  unfold ofBits mask word64
  split
  · cases Nat.le_antisymm hw ‹_›
    rfl
  · have hdvd : ((Nat.pow 2 w : Nat) : Int) ∣ (Nat.pow 2 64 : Nat) :=
      Int.natCast_dvd_natCast.2 (Nat.pow_dvd_pow 2 hw)
    have hnonneg : 0 ≤ n % (Nat.pow 2 64 : Nat) := Int.emod_nonneg n (by decide)
    have hmod : n % (Nat.pow 2 64 : Nat) % (Nat.pow 2 w : Nat) = n % (Nat.pow 2 w : Nat) :=
      Int.emod_emod_of_dvd n hdvd
    show int ((n % (Nat.pow 2 64 : Nat)).toNat % ((Nat.pow 2 w : Nat) : Int).toNat) w = _
    rw [← Int.toNat_emod hnonneg (Int.natCast_nonneg _), hmod]
    rfl

/-- A word of a width is not cut. -/
theorem ofBits_toNat (x : BitVec w) : ofBits x.toNat w = .int x.toNat w := by
  unfold ofBits mask
  split
  · rfl
  · exact congrArg (int · w) (Nat.mod_eq_of_lt x.isLt)

theorem signExtend_toNat (hw : w ≤ 64) (x : BitVec w) : signExtend x.toNat w = x.toInt := by
  unfold signExtend
  rw [Nat.min_eq_left hw]
  have hlow : x.toNat % Nat.pow 2 w = x.toNat := Nat.mod_eq_of_lt x.isLt
  simp only [hlow]
  rfl

theorem ofInt_toNat (x : BitVec w) : BitVec.ofInt w x.toNat = x := by
  rw [BitVec.ofInt_natCast, BitVec.ofNat_toNat, BitVec.setWidth_eq]

theorem ofInt_sub (x y : BitVec w) : BitVec.ofInt w ((x.toNat : Int) - y.toNat) = x - y := by
  apply eq_of_toInt_eq
  rw [BitVec.toInt_ofInt, BitVec.toInt_sub]
  simp [BitVec.toInt_eq_toNat_bmod]

theorem ofInt_shiftLeft (x : BitVec w) (s : Nat) :
    BitVec.ofInt w (x.toNat * Nat.pow 2 s : Nat) = x <<< s := by
  apply BitVec.eq_of_toNat_eq
  rw [BitVec.ofInt_natCast, BitVec.toNat_shiftLeft, Nat.shiftLeft_eq]
  rfl

theorem ofInt_shiftRight (x : BitVec w) (s : Nat) :
    BitVec.ofInt w (x.toNat / Nat.pow 2 s : Nat) = x >>> s := by
  have hdiv : x.toNat / Nat.pow 2 s = (x >>> s).toNat := by
    rw [BitVec.toNat_ushiftRight, Nat.shiftRight_eq_div_pow]
    rfl
  rw [hdiv, ofInt_toNat]

theorem ofInt_sshiftRight (x : BitVec w) (s : Nat) :
    BitVec.ofInt w (x.toInt / (Nat.pow 2 s : Nat)) = x.sshiftRight s := by
  have hdiv : x.toInt / (Nat.pow 2 s : Nat) = (x.sshiftRight s).toInt := by
    rw [BitVec.toInt_sshiftRight, Int.shiftRight_eq_div_pow]
    rfl
  rw [hdiv, ofInt_toInt]

theorem ofInt_tdiv (x y : BitVec w) : BitVec.ofInt w (x.toInt.tdiv y.toInt) = x.sdiv y := by
  apply eq_of_toInt_eq
  rw [BitVec.toInt_ofInt, BitVec.toInt_sdiv]

theorem ofInt_tmod (x y : BitVec w) : BitVec.ofInt w (x.toInt.tmod y.toInt) = x.srem y := by
  rw [← BitVec.toInt_srem, ofInt_toInt]

/-- A remainder whose sign is not that of the divisor is moved to its side of zero. -/
theorem fmod_eq (a b : Int) :
    a.fmod b = if a.tmod b ≠ 0 ∧ (a.tmod b < 0) ≠ (b < 0) then a.tmod b + b else a.tmod b := by
  have hzero : b ∣ a ↔ a.tmod b = 0 := Int.dvd_iff_tmod_eq_zero
  have hpos : 0 ≤ a → 0 ≤ a.tmod b := Int.tmod_nonneg b
  have hneg : a ≤ 0 → a.tmod b ≤ 0 := by
    intro ha
    have h : 0 ≤ (-a).tmod b := Int.tmod_nonneg b (by omega)
    rw [Int.neg_tmod] at h
    omega
  rw [Int.fmod_eq_tmod]
  simp only [ne_eq, eq_iff_iff]
  repeat' split
  all_goals omega

theorem ofInt_fmod (x y : BitVec w) :
    BitVec.ofInt w (if x.toInt.tmod y.toInt ≠ 0 ∧ (x.toInt.tmod y.toInt < 0) ≠ (y.toInt < 0)
      then x.toInt.tmod y.toInt + y.toInt else x.toInt.tmod y.toInt) = x.smod y := by
  rw [← fmod_eq, ← BitVec.toInt_smod, ofInt_toInt]

theorem natAbs_toInt (x : BitVec w) : x.toInt.natAbs = x.abs.toNat := by
  rw [BitVec.toNat_abs, BitVec.msb_eq_toInt, BitVec.toInt_eq_toNat_cond]
  simp only [decide_eq_true_eq]
  split <;> split <;> omega

theorem leadingZeros_toNat (hw : 0 < w ∧ w ≤ 64) (x : BitVec w) :
    leadingZeros x.toNat w = .ok x.clz.toNat := by
  have hfits : ¬ (64 < w ∨ Nat.pow 2 w ≤ x.toNat) :=
    not_or.2 ⟨Nat.not_lt.2 hw.2, Nat.not_le.2 x.isLt⟩
  unfold leadingZeros
  rw [if_neg hfits]
  congr 1
  split
  · next hzero =>
    have hx : x = 0#w := BitVec.eq_of_toNat_eq hzero
    rw [BitVec.clz_eq_iff_eq_zero.2 hx]
    exact (Nat.mod_eq_of_lt Nat.lt_two_pow_self).symm
  · next hzero =>
    have hx : x ≠ 0#w := fun h => hzero (h ▸ rfl)
    have hlt : x.clz.toNat < w := by
      have h := BitVec.clz_lt_iff_ne_zero.2 hx
      exact Nat.lt_of_lt_of_eq h (Nat.mod_eq_of_lt Nat.lt_two_pow_self)
    have hlog : x.toNat.log2 = w - 1 - x.clz.toNat := by
      rw [Nat.log2_eq_iff hzero]
      refine ⟨BitVec.two_pow_sub_clz_le_toNat_of_ne_zero hw.1 hx, ?_⟩
      have h := BitVec.toNat_lt_two_pow_sub_clz (x := x)
      rwa [show w - x.clz.toNat = w - 1 - x.clz.toNat + 1 by omega] at h
    omega

theorem countP_range_testBit (x : BitVec w) (n : Nat) :
    (List.range n).countP (x.toNat.testBit ·) = x.cpopNatRec n 0 := by
  induction n with
  | zero => rfl
  | succ n ih =>
    rw [List.range_succ, List.countP_append, BitVec.cpopNatRec_succ, BitVec.cpopNatRec_eq (0 + _)]
    cases h : x.getLsbD n <;> simp_all [BitVec.getLsbD]

section Integers

variable (hw : 0 < w ∧ w ≤ 64) (x y : BitVec w) {z : BitVec w} {op : Opcode}

include hw

theorem intBinary_total (h : totalWord? x y op = some z) :
    intBinary op x.toNat y.toNat w = .ok (.int z.toNat w) := by
  have hshift : y.toNat % w < 64 := Nat.lt_of_lt_of_le (Nat.mod_lt _ hw.1) hw.2
  unfold totalWord? at h
  unfold intBinary wordBinary
  rw [if_neg (Nat.ne_of_gt hw.1)]
  split at h <;> cases h
  all_goals simp only [ofBits_word64 hw.2, if_pos hshift, signExtend_toNat hw.2]
  · rw [BitVec.ofInt_add, ofInt_toNat, ofInt_toNat]
  · rw [ofInt_sub]
  · rw [BitVec.ofInt_mul, ofInt_toNat, ofInt_toNat]
  · rw [← BitVec.toNat_and, ofInt_toNat]
  · rw [← BitVec.toNat_or, ofInt_toNat]
  · rw [← BitVec.toNat_xor, ofInt_toNat]
  · rw [ofInt_shiftLeft]
  · rw [ofInt_shiftRight]
  · rw [ofInt_sshiftRight]

theorem intBinary_comparison {b : Bool} (h : comparison? x y op = some b) :
    intBinary op x.toNat y.toNat w = .ok (.bool b) := by
  have heq : (x.toNat == y.toNat) = (x == y) := by
    rw [Bool.eq_iff_iff, beq_iff_eq, beq_iff_eq, BitVec.toNat_eq]
  unfold comparison? at h
  unfold intBinary wordBinary
  rw [if_neg (Nat.ne_of_gt hw.1)]
  split at h <;> cases h
  all_goals simp only [signExtend_toNat hw.2]
  · rw [heq]
  · rw [bne, heq]
    rfl
  all_goals rfl

theorem intBinary_unsigned (h : unsignedDivision? x y op = some z) :
    intBinary op x.toNat y.toNat w =
      if y = 0 then .error (.dividesByZero op) else .ok (.int z.toNat w) := by
  have hzero : y.toNat = 0 ↔ y = 0 := by simp [BitVec.toNat_eq]
  unfold unsignedDivision? at h
  unfold intBinary wordBinary
  rw [if_neg (Nat.ne_of_gt hw.1)]
  split at h <;> cases h
  all_goals simp only [ofBits_word64 hw.2, hzero]
  · rw [← BitVec.toNat_udiv, ofInt_toNat]
  · rw [← BitVec.toNat_umod, ofInt_toNat]

/-- Signed division faults on a zero divisor; the quotient that is out of range is told from the
others at 64 bits only. -/
theorem intBinary_signed (h : signedDivision? x y op = some z) :
    intBinary op x.toNat y.toNat w =
      if y = 0 then .error (.dividesByZero op)
      else if w = 64 ∧ x = intMin w ∧ y = -1 then .error (.overflows op w)
      else .ok (.int z.toNat w) := by
  have hzero : y.toInt = 0 ↔ y = 0 := by rw [← BitVec.toInt_zero, BitVec.toInt_inj]; rfl
  have hleast : (x.toInt = -(Nat.pow 2 63 : Int) ∧ y.toInt = -1) ↔
      w = 64 ∧ x = intMin w ∧ y = -1 := by
    constructor
    · rintro ⟨hx, hy⟩
      have hrange : -2 ^ w ≤ 2 * x.toInt := BitVec.le_two_mul_toInt
      have hx : x.toInt = -9223372036854775808 := hx
      rcases Nat.lt_or_eq_of_le hw.2 with hlt | rfl
      · have hpow : 2 ^ w < 2 ^ 64 := Nat.pow_lt_pow_right (by decide) hlt
        have hpow : (2 : Int) ^ w < 2 ^ 64 := by exact_mod_cast hpow
        omega
      · exact ⟨rfl, eq_of_toInt_eq hx, eq_of_toInt_eq hy⟩
    · rintro ⟨rfl, rfl, rfl⟩
      exact ⟨by decide, by decide⟩
  unfold signedDivision? at h
  unfold intBinary wordBinary
  rw [if_neg (Nat.ne_of_gt hw.1)]
  split at h <;> cases h
  all_goals simp only [ofBits_word64 hw.2, signExtend_toNat hw.2, signedDivision, hzero, hleast]
  all_goals split
  any_goals rfl
  all_goals split
  any_goals rfl
  · rw [← ofInt_tdiv]
    rfl
  · rw [← ofInt_tmod]
    rfl
  · rw [← ofInt_fmod]
    rfl

theorem math_word {op : MathOp} (h : wordMath? x op = some z) :
    math op [.int x.toNat w] = .ok (.int z.toNat w) := by
  unfold wordMath? at h
  split at h <;> cases h
  · simp only [math, mathInt, asSigned, if_neg (Nat.ne_of_gt hw.1), signExtend_toNat hw.2]
    show Except.ok (ofBits x.toInt.natAbs w) = _
    rw [natAbs_toInt, ofBits_toNat]
  · simp only [math, mathInt, leadingZeros_toNat hw]
    exact congrArg Except.ok (ofBits_toNat x.clz)
  · show Except.ok (ofBits ((List.range w).countP (x.toNat.testBit ·)) w) = _
    rw [countP_range_testBit, ← BitVec.toNat_cpop, ofBits_toNat]

theorem math_words {op : MathOp} (h : wordsMath? x y op = some z) :
    math op [.int x.toNat w, .int y.toNat w] = .ok (.int z.toNat w) := by
  have hsigned : x.sle y = true ↔ x.toInt ≤ y.toInt := BitVec.sle_iff_toInt_le
  have hunsigned : x.ule y = true ↔ x.toNat ≤ y.toNat := BitVec.ule_iff_toNat_le
  unfold wordsMath? at h
  simp only [math, mathInts, asSigned, if_neg (Nat.ne_of_gt hw.1), signExtend_toNat hw.2]
  split at h <;> cases h
  · show Except.ok (ofBits (word64 (min x.toInt y.toInt)) w) = _
    rw [ofBits_word64 hw.2, Int.min_def]
    simp only [hsigned]
    split <;> rw [ofInt_toInt]
  · show Except.ok (ofBits (word64 (max x.toInt y.toInt)) w) = _
    rw [ofBits_word64 hw.2, Int.max_def]
    simp only [hsigned]
    split <;> rw [ofInt_toInt]
  · show Except.ok (ofBits (min x.toNat y.toNat) w) = _
    rw [Nat.min_def]
    simp only [hunsigned]
    split <;> rw [ofBits_toNat]
  · show Except.ok (ofBits (max x.toNat y.toNat) w) = _
    rw [Nat.max_def]
    simp only [hunsigned]
    split <;> rw [ofBits_toNat]

/-- There are no other operators on integers. -/
theorem intBinary_other (htotal : totalWord? x y op = none) (htruth : comparison? x y op = none)
    (hunsigned : unsignedDivision? x y op = none) (hsigned : signedDivision? x y op = none) :
    intBinary op x.toNat y.toNat w = .error (.onIntegers op) := by
  unfold intBinary wordBinary
  rw [if_neg (Nat.ne_of_gt hw.1)]
  split
  all_goals first
    | rfl
    | simp [totalWord?, comparison?, unsignedDivision?, signedDivision?]
        at htotal htruth hunsigned hsigned

/-- Integers that operators give are words of the width. -/
theorem intBinary_fits {bits width : Nat}
    (h : intBinary op x.toNat y.toNat w = .ok (.int bits width)) :
    width = w ∧ bits < Nat.pow 2 w := by
  cases htotal : totalWord? x y op with
  | some z =>
    cases (intBinary_total hw x y htotal).symm.trans h
    exact ⟨rfl, z.isLt⟩
  | none =>
  cases htruth : comparison? x y op with
  | some => cases (intBinary_comparison hw x y htruth).symm.trans h
  | none =>
  cases hunsigned : unsignedDivision? x y op with
  | some z =>
    rw [intBinary_unsigned hw x y hunsigned] at h
    split at h <;> cases h
    exact ⟨rfl, z.isLt⟩
  | none =>
  cases hsigned : signedDivision? x y op with
  | some z =>
    rw [intBinary_signed hw x y hsigned] at h
    repeat' split at h
    all_goals cases h
    exact ⟨rfl, z.isLt⟩
  | none => cases (intBinary_other hw x y htotal htruth hunsigned hsigned).symm.trans h

end Integers

/-- Operators and functions on integers are those of two's complement words. -/
structure TwosComplement (x y : BitVec w) : Prop where
  total : ∀ op z, totalWord? x y op = some z →
    intBinary op x.toNat y.toNat w = .ok (.int z.toNat w)
  comparison : ∀ op b, comparison? x y op = some b →
    intBinary op x.toNat y.toNat w = .ok (.bool b)
  unsigned : ∀ op z, unsignedDivision? x y op = some z →
    intBinary op x.toNat y.toNat w =
      if y = 0 then .error (.dividesByZero op) else .ok (.int z.toNat w)
  signed : ∀ op z v, signedDivision? x y op = some z →
    intBinary op x.toNat y.toNat w = .ok v → v = .int z.toNat w
  math : ∀ op z, wordMath? x op = some z → math op [.int x.toNat w] = .ok (.int z.toNat w)
  maths : ∀ op z, wordsMath? x y op = some z →
    Device.math op [.int x.toNat w, .int y.toNat w] = .ok (.int z.toNat w)
  fits : ∀ op bits width, intBinary op x.toNat y.toNat w = .ok (.int bits width) →
    width = w ∧ bits < Nat.pow 2 w

/-- **integers_twosComplement**: at every width up to 64 the operators and functions on integers are
those of two's complement words of that width. -/
theorem integers_twosComplement (hw : 0 < w ∧ w ≤ 64) (x y : BitVec w) : TwosComplement x y where
  total _ _ h := intBinary_total hw x y h
  comparison _ _ h := intBinary_comparison hw x y h
  unsigned _ _ h := intBinary_unsigned hw x y h
  signed op z v h hv := by
    rw [intBinary_signed hw x y h] at hv
    repeat' split at hv
    all_goals cases hv
    rfl
  math _ _ h := math_word hw x h
  maths _ _ h := math_words hw x y h
  fits _ _ _ h := intBinary_fits hw x y h

/-- The modulus of -7 by 3 at 8 bits, whose sign is that of 3. -/
theorem integers_twosComplement_modulus :
    (0 < 8 ∧ 8 ≤ 64) ∧ intBinary .sMod 249 3 8 = .ok (.int 2 8) ∧
      TwosComplement (249 : BitVec 8) (3 : BitVec 8) :=
  ⟨by decide, rfl, integers_twosComplement (by decide) _ _⟩

/-- **signed_division_faults**: signed division faults on a zero divisor, and where the quotient of
the least 64-bit integer by -1 is asked for; at smaller widths that quotient wraps around. -/
theorem signed_division_faults (hw : 0 < w ∧ w ≤ 64) (x y : BitVec w) {op : Opcode} {z : BitVec w}
    (h : signedDivision? x y op = some z) :
    (y = 0 → ∃ fault, intBinary op x.toNat y.toNat w = .error fault ∧
      fault.message = opText op ++ " divides by zero") ∧
    (w = 64 ∧ x = intMin w ∧ y = -1 →
      ∃ fault, intBinary op x.toNat y.toNat w = .error fault ∧
        fault.message = opText op ++ " overflows " ++ Text.natText w ++ "-bit signed range") ∧
    (y ≠ 0 → ¬ (w = 64 ∧ x = intMin w ∧ y = -1) →
      intBinary op x.toNat y.toNat w = .ok (.int z.toNat w)) := by
  rw [intBinary_signed hw x y h]
  refine ⟨fun hy => ⟨_, if_pos hy, rfl⟩, fun hleast => ?_, fun hy hleast => ?_⟩
  · obtain ⟨rfl, rfl, rfl⟩ := hleast
    exact ⟨_, rfl, rfl⟩
  · rw [if_neg hy, if_neg hleast]

/-- The least 32-bit integer divided by -1 is itself. -/
theorem signed_division_faults_wraps :
    signedDivision? (intMin 32) (-1) .sDiv = some (intMin 32) ∧
      intBinary .sDiv (intMin 32).toNat (-1 : BitVec 32).toNat 32 =
        .ok (.int (intMin 32).toNat 32) :=
  ⟨rfl, (signed_division_faults (by decide) _ _ rfl).2.2 (by decide) (by decide)⟩

/-- The quotient of the least 32-bit integer by -1 is out of range and no fault. -/
theorem overflowing_quotient_faultless :
    (intMin 32).toInt.tdiv (-1 : BitVec 32).toInt = Nat.pow 2 31 ∧
      ¬ ∃ fault, intBinary .sDiv (intMin 32).toNat (-1 : BitVec 32).toNat 32 =
        .error fault :=
  ⟨rfl, fun ⟨_, h⟩ => nomatch h⟩

end KernelForge.Device
