import Mathlib.Algebra.Group.Int.Defs
import Mathlib.Algebra.Group.Nat.Defs

/-!
# Binary64 arithmetic that does not round

A natural number below `2 ^ 53` is a binary64 number, and so is its quotient by a power of two: the
division changes the exponent and leaves the significand alone. What such numbers say about each
other they therefore say without an error.

The proofs open the standard library's model of `Float`: numbers are unpacked into significands and
exponents, computed with, rounded, and packed again. Rounding drops bits from the end of a
significand; here all bits that it drops are zeros.

## Main definitions

* `IsNormal` — the significands and exponents of normal numbers
* `Denotes` — which number `n · 2 ^ e` an unpacked one is

## Main results

* `unpack_eq_finite` — the bits of a number
* `IsNormal.roundWithAccuracy_mul`, `IsNormal.unpack_pack` — a normal number is neither changed by
  rounding nor by packing
* `denotes_ofNat`, `denotes_ofNat_two_pow` — conversions that are exact
* `half_lt_div_iff`, `div_le_half_iff` — an exact quotient against a half
-/

namespace BulkLookup.Binary64

open Float.Model (Format UnpackedFloat totalExponent)
open Float.Model.UnpackedFloat

/-! ### The format -/

theorem targetExponent_eq (e : Int) :
    Format.binary64.targetExponent e = max (e - 53) (-1074) := rfl

theorem finite_congr {s s' : Sign} {m m' : Nat} {e e' : Int} {h : 0 < m} (hs : s = s')
    (hm : m = m') (he : e = e') :
    UnpackedFloat.finite s m e h = .finite s' m' e' (hm ▸ h) := by
  subst hs hm he
  rfl

/-- How a number other than zero is packed; one that is not normal has the least exponent. -/
theorem pack_finite {s : Sign} {m : Nat} {e : Int} {h : 0 < m} :
    pack .binary64 (.finite s m e h) =
      if 2 ^ 11 ≤ (e + 1023 + 52).toNat + 1 then packedInfinity .binary64 s
      else if m.log2 + 1 = 53 then
        packComponents .binary64 s (.ofNat 11 (e + 1023 + 52).toNat) (.ofNat 52 m)
      else packComponents .binary64 s 0#11 (.ofNat 52 m) := rfl

section Bits

variable {b : BitVec 64}

/-- Unless the stored exponent is the greatest or the least one, the bits are those of a normal
number. -/
theorem unpack_of_ne (hmax : @unpackExponent .binary64 b ≠ -1#11)
    (hmin : @unpackExponent .binary64 b ≠ 0#11) :
    ∃ h, unpack .binary64 b = .finite (.ofBitVec (@unpackSign .binary64 b))
      (1#1 ++ @unpackMantissa .binary64 b).toNat
      ((@unpackExponent .binary64 b).toNat - (1023 + 52)) h :=
  ⟨_, (if_neg hmax).trans (if_neg hmin)⟩

/-- What the bits of a finite number other than zero are. -/
theorem unpack_eq_finite {s : Sign} {m : Nat} {e : Int} {h : 0 < m}
    (hb : unpack .binary64 b = .finite s m e h) :
    s = .ofBitVec (@unpackSign .binary64 b) ∧
      (@unpackExponent .binary64 b = 0#11 ∧ m = (@unpackMantissa .binary64 b).toNat ∧ e = -1074 ∨
        @unpackExponent .binary64 b ≠ 0#11 ∧ m = (1#1 ++ @unpackMantissa .binary64 b).toNat ∧
          e = (@unpackExponent .binary64 b).toNat - (1023 + 52)) := by
  by_cases hmin : @unpackExponent .binary64 b = 0#11
  · have hmax : @unpackExponent .binary64 b ≠ -1#11 := by
      rw [hmin]
      decide
    by_cases hzero : @unpackMantissa .binary64 b = 0#52
    · have hunpack : unpack .binary64 b = .zero _ :=
        (if_neg hmax).trans ((if_pos hmin).trans (dif_pos hzero))
      cases hunpack.symm.trans hb
    · have hunpack : unpack .binary64 b = .finite _ _ _ _ :=
        (if_neg hmax).trans ((if_pos hmin).trans (dif_neg hzero))
      cases hunpack.symm.trans hb
      refine ⟨rfl, .inl ⟨hmin, rfl, ?_⟩⟩
      rw [hmin]
      rfl
  · by_cases hmax : @unpackExponent .binary64 b = -1#11
    -- With the greatest exponent the number would be infinite, or none.
    · by_cases hzero : @unpackMantissa .binary64 b = 0#52
      · have hunpack : unpack .binary64 b = .infinity _ := (if_pos hmax).trans (if_pos hzero)
        cases hunpack.symm.trans hb
      · have hunpack : unpack .binary64 b = .notANumber := (if_pos hmax).trans (if_neg hzero)
        cases hunpack.symm.trans hb
    · obtain ⟨_, hunpack⟩ := unpack_of_ne hmax hmin
      cases hunpack.symm.trans hb
      exact ⟨rfl, .inr ⟨hmin, rfl, rfl⟩⟩

end Bits

theorem unpackSign_packComponents {s : Sign} {exponent : BitVec 11} {fraction : BitVec 52} :
    unpackSign (packComponents .binary64 s exponent fraction) = s.toBitVec := by
  have hsign : (s.toBitVec ++ exponent ++ fraction).extractLsb' 63 1 = s.toBitVec := by
    rw [BitVec.extractLsb'_append_eq_of_le (by decide),
      BitVec.extractLsb'_append_eq_of_le (by decide), BitVec.extractLsb'_eq_self]
  exact hsign

/-- The first bit of a significand is always one, and is not stored. -/
theorem toNat_one_append {m : Nat} (hlow : 2 ^ 52 ≤ m) (hhigh : m < 2 ^ 53) :
    (1#1 ++ BitVec.ofNat 52 m).toNat = m := by
  rw [BitVec.toNat_append, ← Nat.shiftLeft_add_eq_or_of_lt (BitVec.isLt _), Nat.shiftLeft_eq,
    BitVec.toNat_ofNat, BitVec.toNat_ofNat]
  omega

/-! ### Normal numbers -/

/-- A significand of 53 bits, and an exponent that goes with it. -/
structure IsNormal (m : Nat) (e : Int) : Prop where
  le_significand : 2 ^ 52 ≤ m
  significand_lt : m < 2 ^ 53
  le_exponent : -1074 ≤ e
  exponent_le : e ≤ 971

/-- Zeros shifted out leave nothing to round. -/
theorem shiftRight_mul_two_pow (m j : Nat) :
    (⟨m * 2 ^ j, false, false⟩ : ExtendedMantissa) >>> j = ⟨m, false, false⟩ := by
  induction j generalizing m with
  | zero => simp [HShiftRight.hShiftRight, Nat.repeat]
  | succ j ih =>
    have hsplit : m * 2 ^ (j + 1) = m * 2 * 2 ^ j := by rw [Nat.pow_succ', Nat.mul_assoc]
    calc (⟨m * 2 ^ (j + 1), false, false⟩ : ExtendedMantissa) >>> (j + 1)
        = ((⟨m * 2 * 2 ^ j, false, false⟩ : ExtendedMantissa) >>> j).shiftRightOne := by
          rw [hsplit]
          rfl
      _ = ⟨m, false, false⟩ := by simp [ih, ExtendedMantissa.shiftRightOne]

namespace IsNormal

variable {m : Nat} {e f : Int}

theorem pos (h : IsNormal m e) : 0 < m := Nat.lt_of_lt_of_le (Nat.two_pow_pos 52) h.le_significand

theorem log2_mul (h : IsNormal m e) (j : Nat) : (m * 2 ^ j).log2 = 52 + j := by
  have hpow := Nat.two_pow_pos j
  refine (Nat.log2_eq_iff (Nat.ne_of_gt (Nat.mul_pos h.pos hpow))).2 ⟨?_, ?_⟩
  · rw [Nat.pow_add]
    exact Nat.mul_le_mul_right _ h.le_significand
  · rw [Nat.add_right_comm, Nat.pow_add]
    exact Nat.mul_lt_mul_of_pos_right h.significand_lt hpow

theorem log2_eq (h : IsNormal m e) : m.log2 = 52 := by simpa using h.log2_mul 0

/-- Zeros behind a significand do not count for the exponent that rounding aims at. -/
theorem targetExponent_mul (h : IsNormal m e) (j : Nat) :
    Format.binary64.targetExponent (totalExponent (m * 2 ^ j) (e - j)) = e := by
  have hlow := h.le_exponent
  rw [targetExponent_eq, totalExponent, h.log2_mul]
  omega

theorem shiftToTargetExponent_mul (h : IsNormal m e) (j : Nat) :
    shiftToTargetExponent .binary64 (m * 2 ^ j) (e - j) .exact = (⟨m, false, false⟩, e) := by
  have hshift : (e - (e - j)).toNat = j := by omega
  simp only [shiftToTargetExponent, h.targetExponent_mul, shiftToExponent, hshift,
    ExtendedMantissa.ofMantissaAndAccuracy, shiftRight_mul_two_pow]
  congr 1
  omega

/-- A normal number is rounded to itself, however many zeros stand behind its significand. -/
theorem roundWithAccuracy_mul (h : IsNormal m e) (j : Nat) :
    roundWithAccuracy .binary64 .positive (m * 2 ^ j) (e - j) .exact =
      .finite .positive m e h.pos := by
  have hagain := h.shiftToTargetExponent_mul 0
  rw [Nat.pow_zero, Nat.mul_one, Int.natCast_zero, Int.sub_zero] at hagain
  rw [roundWithAccuracy, h.shiftToTargetExponent_mul j]
  -- Rounding shifts again, for a carry may have made the significand too long. There is none here.
  dsimp only [ExtendedMantissa.roundedMantissa, ExtendedMantissa.accuracy,
    Accuracy.roundToNearestEven]
  rw [hagain]
  exact dif_neg (Nat.ne_of_gt h.pos)

theorem roundWithAccuracy_eq (h : IsNormal m e) :
    roundWithAccuracy .binary64 .positive m e .exact = .finite .positive m e h.pos := by
  have hround := h.roundWithAccuracy_mul 0
  rwa [Nat.pow_zero, Nat.mul_one, Int.natCast_zero, Int.sub_zero] at hround

/-- The exponent is stored as a number from 1 to 2046. -/
theorem exists_biased (h : IsNormal m e) : ∃ b : Nat, 0 < b ∧ b < 2047 ∧ e = b - 1075 ∧
    pack .binary64 (.finite .positive m e h.pos) =
      packComponents .binary64 .positive (BitVec.ofNat 11 b) (BitVec.ofNat 52 m) := by
  have hlow := h.le_exponent
  have hhigh := h.exponent_le
  have hbiased : e + 1023 + 52 = e + 1075 := by omega
  refine ⟨(e + 1075).toNat, by omega, by omega, by omega, ?_⟩
  rw [pack_finite, hbiased, if_neg (by omega), h.log2_eq, if_pos rfl]

/-- A normal number survives being packed. -/
theorem unpack_pack (h : IsNormal m e) :
    (Float.Model.pack (.finite .positive m e h.pos)).unpack = .finite .positive m e h.pos := by
  obtain ⟨b, hpos, hlt, rfl, hpack⟩ := h.exists_biased
  have hexponent : (BitVec.ofNat 11 b).toNat = b := by
    rw [BitVec.toNat_ofNat]
    omega
  -- The exponent stands neither for infinity nor for zero.
  have hmax : BitVec.ofNat 11 b ≠ -1#11 := fun heq => by
    rw [heq] at hexponent
    exact Nat.ne_of_gt hlt hexponent
  have hmin : BitVec.ofNat 11 b ≠ 0#11 := fun heq => by
    rw [heq] at hexponent
    exact Nat.ne_of_lt hpos hexponent
  obtain ⟨_, hunpack⟩ := unpack_of_ne (b := pack .binary64 (.finite .positive m _ h.pos))
    (by rwa [hpack, unpackExponent_packComponents]) (by rwa [hpack, unpackExponent_packComponents])
  refine hunpack.trans (finite_congr ?_ ?_ ?_)
  · rw [hpack, unpackSign_packComponents]
    rfl
  · rw [hpack, unpackMantissa_packComponents]
    exact toNat_one_append h.le_significand h.significand_lt
  · rw [hpack, unpackExponent_packComponents, hexponent]
    omega

/-- A quotient by a power of two is computed to one bit more than there is room for, and that bit is
a zero. -/
theorem div_two_pow (h : IsNormal m e) (hquotient : IsNormal m (e - f - 52))
    (hlow : -1021 ≤ e - f) :
    div .binary64 (.finite .positive m e h.pos)
        (.finite .positive (2 ^ 52) f (Nat.two_pow_pos 52)) =
      .finite .positive m (e - f - 52) h.pos := by
  have htarget : min (e - f) (Format.binary64.targetExponent
      (totalExponent m e - totalExponent (2 ^ 52) f)) = e - f - 52 - (1 : Nat) := by
    rw [targetExponent_eq, totalExponent, totalExponent, h.log2_eq, Nat.log2_two_pow]
    omega
  have hshift : (e - f - (e - f - 52 - (1 : Nat))).toNat = 53 := by omega
  have hbits : m <<< 53 = m * 2 ^ 1 * 2 ^ 52 := by
    rw [Nat.shiftLeft_eq]
    omega
  have hcore : divCore .binary64 m e (2 ^ 52) f = (m * 2 ^ 1, e - f - 52 - (1 : Nat), .exact) := by
    simp only [divCore, htarget, hshift, hbits, Nat.mul_div_cancel _ (Nat.two_pow_pos 52),
      Nat.mul_mod_left, accuracyOfFraction, if_true]
  change (fun (m, e, accuracy) => roundWithAccuracy .binary64 .positive m e accuracy)
    (divCore .binary64 m e (2 ^ 52) f) = _
  rw [hcore]
  exact hquotient.roundWithAccuracy_mul 1

end IsNormal

/-! ### Numbers without an error -/

/-- An unpacked number is `n · 2 ^ e`: it is zero, or normal with the bits of `n` at the front of
its significand. -/
inductive Denotes (n : Nat) (e : Int) : UnpackedFloat → Prop
  | zero (h : n = 0) : Denotes n e (.zero .positive)
  | normal (j : Nat) (h : IsNormal (n * 2 ^ j) (e - j)) :
    Denotes n e (.finite .positive (n * 2 ^ j) (e - j) h.pos)

namespace Denotes

variable {n k : Nat} {e f : Int} {u v : UnpackedFloat}

theorem unpack_pack (h : Denotes n e u) : (Float.Model.pack u).unpack = u := by
  cases h with
  | zero => rfl
  | normal j h => exact h.unpack_pack

/-- The significand of a power of two is a one before zeros. -/
theorem eq_of_one (h : Denotes 1 e u) :
    u = .finite .positive (2 ^ 52) (e - 52) (Nat.two_pow_pos 52) := by
  cases h with
  | zero h => cases h
  | normal j h =>
    have hj : j = 52 := by
      have := h.log2_eq
      rwa [Nat.one_mul, Nat.log2_two_pow] at this
    subst hj
    rfl

theorem of_two_pow (h : Denotes (2 ^ k : Nat) 0 u) : Denotes 1 k u := by
  cases h with
  | zero h => exact absurd h (Nat.ne_of_gt (Nat.two_pow_pos k))
  | normal j h =>
    have hm : 2 ^ k * 2 ^ j = 1 * 2 ^ (k + j) := by rw [Nat.one_mul, Nat.pow_add]
    have he : (0 - j : Int) = k - (k + j : Nat) := by omega
    have h' : IsNormal (1 * 2 ^ (k + j)) (k - (k + j : Nat)) := by rwa [← hm, ← he]
    rw [finite_congr rfl hm he]
    exact normal (k + j) h'

theorem mul_one (h : Denotes n e u) (hone : Denotes 1 0 v) : mul .binary64 u v = u := by
  rw [hone.eq_of_one]
  cases h with
  | zero => rfl
  | normal j h => exact h.roundWithAccuracy_mul 52

/-- Division by a power of two changes the exponent alone. -/
theorem div_two_pow (h : Denotes n 0 u) (hk : Denotes 1 k v) (hle : k ≤ 1000) :
    Denotes n (-k : Int) (div .binary64 u v) := by
  rw [hk.eq_of_one]
  cases h with
  | zero h => exact .zero h
  | normal j h =>
    have hj : j ≤ 52 := by
      refine Nat.le_of_lt_succ ((Nat.pow_lt_pow_iff_right (Nat.lt_add_one 1)).1 ?_)
      refine Nat.lt_of_le_of_lt (Nat.le_mul_of_pos_left _ ?_) h.significand_lt
      exact Nat.pos_of_mul_pos_right h.pos
    have hexponent : (0 : Int) - j - (k - 52) - 52 = -k - j := by omega
    have hnormal : IsNormal (n * 2 ^ j) (-k - j) :=
      ⟨h.le_significand, h.significand_lt, by omega, by omega⟩
    rw [h.div_two_pow (hexponent ▸ hnormal) (by omega), finite_congr rfl rfl hexponent]
    exact .normal j hnormal

/-- How a multiple of `2 ^ -k` compares with a half. -/
theorem compare_half (h : Denotes n (-k : Int) u) (hhalf : Denotes 1 (-1) v) :
    u.compare v = some (compare (2 * n) (2 ^ k)) := by
  rw [hhalf.eq_of_one]
  cases h with
  | zero h =>
    rw [h, Nat.mul_zero, Nat.compare_eq_lt.2 (Nat.two_pow_pos k)]
    rfl
  | normal j h =>
    have hlow := h.le_significand
    have hhigh := h.significand_lt
    have hpos := Nat.two_pow_pos j
    have hdouble : 2 * n * 2 ^ j = 2 * (n * 2 ^ j) := Nat.mul_assoc _ _ _
    change some ((compare (-k - j : Int) (-1 - 52)).then (compare (n * 2 ^ j) (2 ^ 52))) = _
    congr 1
    -- The exponents decide, unless they are equal.
    rcases Nat.lt_trichotomy (k + j) 53 with hlt | heq | hgt
    · have hpow : 2 ^ k * 2 ^ j ≤ 2 ^ 52 := by
        rw [← Nat.pow_add]
        exact Nat.pow_le_pow_right Nat.two_pos (Nat.le_of_lt_succ hlt)
      have hmore : 2 ^ k < 2 * n := Nat.lt_of_mul_lt_mul_right (a := 2 ^ j) (by omega)
      rw [Int.compare_eq_gt.2 (by omega), Nat.compare_eq_gt.2 hmore]
      rfl
    · have hpow : 2 ^ k * 2 ^ j = 2 * 2 ^ 52 := by rw [← Nat.pow_add, heq, Nat.pow_succ']
      have hless : 2 * n < 2 ^ k ↔ n * 2 ^ j < 2 ^ 52 := by
        rw [← Nat.mul_lt_mul_right hpos, hdouble, hpow]
        omega
      have hmore : 2 ^ k < 2 * n ↔ 2 ^ 52 < n * 2 ^ j := by
        rw [← Nat.mul_lt_mul_right hpos, hdouble, hpow]
        omega
      rw [Int.compare_eq_eq.2 (by omega)]
      simp only [Nat.compare_eq_ite_lt, hless, hmore, Ordering.then]
    · have hpow : 2 ^ 54 ≤ 2 ^ k * 2 ^ j := by
        rw [← Nat.pow_add]
        exact Nat.pow_le_pow_right Nat.two_pos hgt
      have hless : 2 * n < 2 ^ k := Nat.lt_of_mul_lt_mul_right (a := 2 ^ j) (by omega)
      rw [Int.compare_eq_lt.2 (by omega), Nat.compare_eq_lt.2 hless]
      rfl

theorem compare_swap {m : Nat} (hu : Denotes m e u) (hv : Denotes n f v) :
    v.compare u = (u.compare v).map Ordering.swap := by
  cases hu with
  | zero => cases hv <;> rfl
  | normal =>
    cases hv with
    | zero => rfl
    | normal =>
      change some ((compare _ _).then (compare _ _)) = some ((compare _ _).then (compare _ _)).swap
      rw [Ordering.swap_then, Int.compare_swap, Nat.compare_swap]

end Denotes

/-! ### Conversions -/

variable {n k : Nat}

/-- A natural number is shifted up until it has 53 bits. -/
theorem denotes_round (hpos : 0 < n) (hn : n < 2 ^ 53) :
    Denotes n 0 (UnpackedFloat.round .binary64 .positive n 0) := by
  have hne : n ≠ 0 := Nat.ne_of_gt hpos
  have hlog : n.log2 < 53 := (Nat.log2_lt hne).2 hn
  obtain ⟨hlow, hhigh⟩ := (Nat.log2_eq_iff hne).1 rfl
  obtain ⟨j, hj⟩ : ∃ j, n.log2 + j = 52 := ⟨52 - n.log2, by omega⟩
  have hnormal : IsNormal (n * 2 ^ j) (0 - j) := by
    refine ⟨?_, ?_, by omega, by omega⟩
    · rw [← hj, Nat.pow_add]
      exact Nat.mul_le_mul_right _ hlow
    · have hbits : 53 = n.log2 + 1 + j := by omega
      rw [hbits, Nat.pow_add]
      exact Nat.mul_lt_mul_of_pos_right hhigh (Nat.two_pow_pos j)
  have htarget : Format.binary64.targetExponent (totalExponent n 0) = 0 - j := by
    rw [targetExponent_eq, totalExponent]
    omega
  have hshift : (0 - (0 - (j : Int))).toNat = j := by omega
  rw [UnpackedFloat.round, htarget, decreaseExponent, hshift, Nat.shiftLeft_eq]
  dsimp only
  rw [hnormal.roundWithAccuracy_eq]
  exact .normal j hnormal

theorem denotes_ofUInt64 {w : UInt64} (hw : w.toNat < 2 ^ 53) :
    Denotes w.toNat 0 (Float.Model.ofUInt64 w).unpack := by
  have hdenotes : Denotes w.toNat 0 (UnpackedFloat.ofUInt64 .binary64 w) := by
    change Denotes _ _ (UnpackedFloat.normalize .binary64 w.toNat 0 .positive)
    rcases Nat.eq_zero_or_pos w.toNat with hzero | hpos
    · rw [hzero]
      exact .zero rfl
    · rw [UnpackedFloat.normalize, Int.compare_eq_gt.2 (Int.natCast_pos.2 hpos)]
      exact denotes_round hpos hw
  rw [Float.Model.ofUInt64, hdenotes.unpack_pack]
  exact hdenotes

theorem denotes_one : Denotes 1 0 (Float.Model.ofBits 0x3ff0000000000000).unpack :=
  .normal 52 ⟨by decide, by decide, by decide, by decide⟩

theorem denotes_half : Denotes 1 (-1) (0.5 : Float).toModel.unpack := by
  have hunpack : (0.5 : Float).toModel.unpack =
      .finite .positive (2 ^ 52) (-1 - 52) (Nat.two_pow_pos 52) := rfl
  rw [hunpack]
  exact .normal 52 ⟨by decide, by decide, by decide, by decide⟩

/-- Natural numbers of at most 53 bits are converted exactly. -/
theorem denotes_ofNat (hn : n < 2 ^ 53) : Denotes n 0 (Float.ofNat n).toModel.unpack := by
  have hword : n.toUInt64.toNat = n := Nat.mod_eq_of_lt (Nat.lt_trans hn (by decide))
  have h := denotes_ofUInt64 (w := n.toUInt64) (by rwa [hword])
  rw [hword] at h
  -- The library converts a word, and multiplies by the power of ten with exponent zero.
  have hofNat : (Float.ofNat n).toModel = .pack (mul .binary64
      (Float.Model.ofUInt64 n.toUInt64).unpack (Float.Model.ofBits 0x3ff0000000000000).unpack) := by
    change (Float.ofScientific n false 0).toModel = _
    rw [Float.ofScientific, dif_pos ⟨hn, by decide⟩]
    rfl
  rw [hofNat, h.mul_one denotes_one, h.unpack_pack]
  exact h

/-- Powers of two are converted exactly, also the greater ones. -/
theorem denotes_ofNat_two_pow (hk : k < 64) :
    Denotes 1 k (Float.ofNat (2 ^ k)).toModel.unpack := by
  rcases Nat.lt_or_ge k 53 with hlt | hge
  · exact (denotes_ofNat (Nat.pow_lt_pow_right Nat.one_lt_two hlt)).of_two_pow
  · have hnormal : IsNormal (1 * 2 ^ 52) (k - (52 : Nat)) :=
      ⟨by decide, by decide, by omega, by omega⟩
    have hdenotes := Denotes.normal 52 hnormal
    -- The library shifts a number as great as this one up by 53 bits before it rounds it.
    have hround := hnormal.roundWithAccuracy_mul (k + 1)
    have hm : (2 ^ k) <<< 53 * 10 ^ 0 = 1 * 2 ^ 52 * 2 ^ (k + 1) := by
      rw [Nat.shiftLeft_eq, Nat.pow_succ]
      omega
    have he : (-53 + 0 : Int) = k - (52 : Nat) - (k + 1 : Nat) := by omega
    rw [← hm, ← he] at hround
    have hbig : ¬ (2 ^ k < 2 ^ 53 ∧ 0 ≤ 22) := fun h =>
      Nat.not_lt.2 (Nat.pow_le_pow_right Nat.two_pos hge) h.1
    have hofNat : (Float.ofNat (2 ^ k)).toModel = .ofScientific (2 ^ k) 0 := by
      simp only [Float.ofNat, OfScientific.ofScientific, Float.ofScientific, dif_neg hbig]
      rfl
    have hscientific : ofScientific .binary64 (2 ^ k) 0 =
        .finite .positive (1 * 2 ^ 52) (k - (52 : Nat)) hnormal.pos := by
      have hexponents : (2 : Int) ^ Format.binary64.exponentBits = 2048 := rfl
      rw [ofScientific, dif_neg (Nat.ne_of_gt (Nat.two_pow_pos k)), if_neg (by decide),
        if_neg (by omega), if_pos (Int.le_refl 0)]
      exact hround
    rw [hofNat, Float.Model.ofScientific, hscientific, hdenotes.unpack_pack]
    exact hdenotes

/-! ### Quotients against a half -/

theorem lt_iff_compare {x y : Float} : x < y ↔ x.toModel.compare y.toModel = some .lt := by
  change decide (x.toModel < y.toModel) = true ↔ _
  rw [decide_eq_true_iff]
  change (x.toModel.unpack.compare y.toModel.unpack == some .lt) = true ↔ _
  exact beq_iff_eq

theorem le_iff_compare {x y : Float} :
    x ≤ y ↔ (x.toModel.compare y.toModel).any Ordering.isLE = true := by
  change decide (x.toModel ≤ y.toModel) = true ↔ _
  rw [decide_eq_true_iff]
  rfl

theorem denotes_div (hn : n < 2 ^ 53) (hk : k < 64) :
    Denotes n (-k : Int) (Float.ofNat n / Float.ofNat (2 ^ k)).toModel.unpack := by
  have h := (denotes_ofNat hn).div_two_pow (denotes_ofNat_two_pow hk) (by omega)
  change Denotes _ _ (Float.Model.pack _).unpack
  rwa [h.unpack_pack]

theorem half_lt_div_iff (hn : n < 2 ^ 53) (hk : k < 64) :
    (0.5 : Float) < Float.ofNat n / Float.ofNat (2 ^ k) ↔ 2 ^ k < 2 * n := by
  have h := denotes_div hn hk
  rw [lt_iff_compare, Float.Model.compare, h.compare_swap denotes_half, h.compare_half denotes_half,
    Option.map_some, Nat.compare_swap, Option.some.injEq, Nat.compare_eq_lt]

theorem div_le_half_iff (hn : n < 2 ^ 53) (hk : k < 64) :
    Float.ofNat n / Float.ofNat (2 ^ k) ≤ (0.5 : Float) ↔ 2 * n ≤ 2 ^ k := by
  have h := denotes_div hn hk
  rw [le_iff_compare, Float.Model.compare, h.compare_half denotes_half, Option.any_some,
    Nat.isLE_compare]

end BulkLookup.Binary64
