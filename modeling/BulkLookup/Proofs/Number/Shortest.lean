import BulkLookup.Decimal.Shortest
import BulkLookup.Proofs.Number.Exact
import Mathlib.Algebra.Order.Field.Power
import Mathlib.Algebra.Order.Field.Rat
import Mathlib.Data.Rat.Cast.Order
import Mathlib.Order.Bounds.Basic
import Mathlib.Tactic.Linarith
import Mathlib.Tactic.Positivity
import Mathlib.Tactic.Ring

/-!
# What the shortest decimal of a number is

The shortest decimal of a binary64 number is computed on integers: the number, the midpoints to its
neighbours and the decimals that are tried are all brought over one denominator. Here the integers
are read as the rational numbers that they stand for. On each grid of multiples of a power of ten
only the two decimals next to the number need to be tried, for whatever reads back has one of them
between itself and the number. The coarsest grid on which one of them does is found first, and the
grid of seventeen digits is fine enough for every number.

## Main definitions

* `Decimal.value`, `Binary.value` — the rational numbers that are meant
* `Binary.ReadsBack` — what lies between the midpoints to the neighbours
* `Binary.IsNearest` — the best among the decimals with one exponent

## Main results

* `Binary.Interval.contains_iff` — the test on integers, as one on rational numbers
* `Binary.nearest?_cases` — what is found among the decimals with one exponent
* `Binary.magnitude_spec` — the power of ten next above a number
* `Binary.shortest_spec` — the shortest decimal reads back, none with fewer digits does, and none
  with as many is nearer
* `Binary.isProper_of_unpack` — the bits of a number, read as the standard library reads them
-/

namespace BulkLookup

/-- The number that a decimal is. -/
def Decimal.value (d : Decimal) : ℚ := d.digits * 10 ^ d.exponent

namespace Binary

variable {b : Binary}

/-- The number that is meant. -/
def value (b : Binary) : ℚ := b.significand * 2 ^ b.exponent

/-- The midpoint to the next number below. -/
def lowest (b : Binary) : ℚ :=
  (b.significand - if b.isNarrowBelow then 1 / 4 else 1 / 2) * 2 ^ b.exponent

/-- The midpoint to the next number above. -/
def highest (b : Binary) : ℚ := (b.significand + 1 / 2) * 2 ^ b.exponent

/-- Whether a number is read back as `b`. -/
def ReadsBack (b : Binary) (x : ℚ) : Prop :=
  if b.significand % 2 = 0 then b.lowest ≤ x ∧ x ≤ b.highest else b.lowest < x ∧ x < b.highest

/-- A power with an integer exponent, by its two parts. -/
theorem zpow_mul_toNat {a : ℚ} (ha : a ≠ 0) (x : ℤ) :
    a ^ x * a ^ (-x).toNat = a ^ x.toNat := by
  rw [← zpow_natCast, ← zpow_natCast, ← zpow_add₀ ha]
  congr 1
  omega

/-! ### Integers over one denominator -/

namespace Interval

theorem denominator_pos (b : Binary) : 0 < b.interval.denominator := by
  simp only [interval, Nat.one_shiftLeft]
  positivity

/-- The numerators of an interval are multiples of a quarter of the power of two. -/
theorem mul_scale_eq (b : Binary) (x : ℚ) :
    4 * x * (1 <<< (b.exponent - 2).toNat : ℕ) = x * 2 ^ b.exponent * b.interval.denominator := by
  have hsplit : (2 : ℚ) ^ b.exponent = 4 * 2 ^ (b.exponent - 2) := by
    rw [zpow_sub₀ two_ne_zero]
    ring
  have hparts := zpow_mul_toNat (two_ne_zero (α := ℚ)) (b.exponent - 2)
  rw [neg_sub] at hparts
  simp only [interval, Nat.one_shiftLeft, Nat.cast_pow, Nat.cast_ofNat]
  rw [hsplit, ← hparts]
  ring

theorem number_eq (b : Binary) : (b.interval.number : ℚ) = b.value * b.interval.denominator := by
  rw [value, ← mul_scale_eq]
  simp only [interval, Nat.cast_mul, Nat.cast_ofNat]

theorem above_eq (b : Binary) : (b.interval.above : ℚ) = b.highest * b.interval.denominator := by
  rw [highest, ← mul_scale_eq]
  simp only [interval, Nat.cast_mul, Nat.cast_add, Nat.cast_ofNat]
  ring

theorem below_eq (hpos : 0 < b.significand) :
    (b.interval.below : ℚ) = b.lowest * b.interval.denominator := by
  have hle : (if b.isNarrowBelow then 1 else 2) ≤ 4 * b.significand := by split <;> omega
  rw [lowest, ← mul_scale_eq]
  simp only [interval, Nat.cast_mul, Nat.cast_sub hle, Nat.cast_ite, Nat.cast_ofNat, Nat.cast_one]
  split <;> ring

/-- The decimals that an interval contains are those that read back. -/
theorem contains_iff (hpos : 0 < b.significand) (d : Decimal) :
    b.interval.contains d = true ↔ b.ReadsBack d.value := by
  have hden : (0 : ℚ) < b.interval.denominator := Nat.cast_pos.2 (denominator_pos b)
  have hscale : (0 : ℚ) < 10 ^ (-d.exponent).toNat := by positivity
  have hvalue : ((d.digits * Nat.pow 10 d.exponent.toNat * b.interval.denominator : ℕ) : ℚ) =
      d.value * (b.interval.denominator * 10 ^ (-d.exponent).toNat) := by
    have hparts := zpow_mul_toNat (by norm_num : (10 : ℚ) ≠ 0) d.exponent
    simp only [Nat.pow_eq, Nat.cast_mul, Nat.cast_pow, Nat.cast_ofNat, ← hparts, Decimal.value]
    ring
  have hbelow : ((b.interval.below * Nat.pow 10 (-d.exponent).toNat : ℕ) : ℚ) =
      b.lowest * (b.interval.denominator * 10 ^ (-d.exponent).toNat) := by
    simp only [Nat.pow_eq, Nat.cast_mul, Nat.cast_pow, Nat.cast_ofNat, below_eq hpos]
    ring
  have habove : ((b.interval.above * Nat.pow 10 (-d.exponent).toNat : ℕ) : ℚ) =
      b.highest * (b.interval.denominator * 10 ^ (-d.exponent).toNat) := by
    simp only [Nat.pow_eq, Nat.cast_mul, Nat.cast_pow, Nat.cast_ofNat, above_eq]
    ring
  have hunit := mul_pos hden hscale
  have hclosed : b.interval.isClosed = decide (b.significand % 2 = 0) := rfl
  simp only [contains, ReadsBack, hclosed, decide_eq_true_iff]
  split
  · rw [Bool.and_eq_true, decide_eq_true_iff, decide_eq_true_iff, ← Nat.cast_le (α := ℚ),
      ← Nat.cast_le (α := ℚ), hvalue, hbelow, habove, mul_le_mul_iff_left₀ hunit,
      mul_le_mul_iff_left₀ hunit]
  · rw [Bool.and_eq_true, decide_eq_true_iff, decide_eq_true_iff, ← Nat.cast_lt (α := ℚ),
      ← Nat.cast_lt (α := ℚ), hvalue, hbelow, habove, mul_lt_mul_iff_left₀ hunit,
      mul_lt_mul_iff_left₀ hunit]

end Interval

/-! ### Between the midpoints -/

theorem lowest_lt_value (b : Binary) : b.lowest < b.value := by
  refine mul_lt_mul_of_pos_right ?_ (by positivity)
  split <;> linarith

theorem value_lt_highest (b : Binary) : b.value < b.highest :=
  mul_lt_mul_of_pos_right (by linarith) (by positivity)

/-- What lies between a number that reads back and the number itself reads back. -/
theorem ReadsBack.of_le {x y : ℚ} (h : b.ReadsBack x) (hxy : x ≤ y) (hy : y ≤ b.value) :
    b.ReadsBack y := by
  have hhigh := b.value_lt_highest
  rw [ReadsBack] at h ⊢
  split_ifs at h ⊢
  · exact ⟨h.1.trans hxy, hy.trans hhigh.le⟩
  · exact ⟨h.1.trans_le hxy, hy.trans_lt hhigh⟩

theorem ReadsBack.of_ge {x y : ℚ} (h : b.ReadsBack x) (hxy : y ≤ x) (hy : b.value ≤ y) :
    b.ReadsBack y := by
  have hlow := b.lowest_lt_value
  rw [ReadsBack] at h ⊢
  split_ifs at h ⊢
  · exact ⟨hlow.le.trans hy, hxy.trans h.2⟩
  · exact ⟨hlow.trans_le hy, hxy.trans_lt h.2⟩

theorem readsBack_of_lt {x : ℚ} (hlow : b.lowest < x) (hhigh : x < b.highest) : b.ReadsBack x := by
  rw [ReadsBack]
  split_ifs
  · exact ⟨hlow.le, hhigh.le⟩
  · exact ⟨hlow, hhigh⟩

/-! ### The decimals next to a number -/

/-- A number, over the denominator that it has in common with `10 ^ x`. -/
def scaled (b : Binary) (x : ℤ) : ℕ := b.interval.number * Nat.pow 10 (-x).toNat

/-- The power `10 ^ x`, over the denominator that it has in common with a number. -/
def unit (b : Binary) (x : ℤ) : ℕ := Nat.pow 10 x.toNat * b.interval.denominator

/-- The greatest decimal with exponent `x` that is at most as great as a number. -/
def lower (b : Binary) (x : ℤ) : Decimal := ⟨b.scaled x / b.unit x, x⟩

/-- The least decimal with exponent `x` that is greater than a number. -/
def upper (b : Binary) (x : ℤ) : Decimal := ⟨b.scaled x / b.unit x + 1, x⟩

theorem nearest?_eq (b : Binary) (x : ℤ) : b.interval.nearest? x =
    match b.interval.contains (b.lower x), b.interval.contains (b.upper x) with
    | true, true => some (if 2 * (b.scaled x % b.unit x) < b.unit x then b.lower x else b.upper x)
    | true, false => some (b.lower x)
    | false, true => some (b.upper x)
    | false, false => none :=
  rfl

section Grid

variable (b) (x : ℤ)

theorem exists_denominator :
    ∃ c : ℚ, 0 < c ∧ (b.scaled x : ℚ) = b.value * c ∧ (b.unit x : ℚ) = 10 ^ x * c := by
  have hden : (0 : ℚ) < b.interval.denominator := Nat.cast_pos.2 (Interval.denominator_pos b)
  have hparts := zpow_mul_toNat (by norm_num : (10 : ℚ) ≠ 0) x
  refine ⟨b.interval.denominator * 10 ^ (-x).toNat, by positivity, ?_, ?_⟩
  · simp only [scaled, Nat.pow_eq, Nat.cast_mul, Nat.cast_pow, Nat.cast_ofNat, Interval.number_eq]
    ring
  · simp only [unit, Nat.pow_eq, Nat.cast_mul, Nat.cast_pow, Nat.cast_ofNat, ← hparts]
    ring

theorem value_lower_le : (b.lower x).value ≤ b.value := by
  obtain ⟨c, hc, hscaled, hunit⟩ := b.exists_denominator x
  refine le_of_mul_le_mul_right ?_ hc
  rw [Decimal.value, lower, mul_assoc, ← hscaled, ← hunit, ← Nat.cast_mul]
  exact Nat.cast_le.2 (Nat.div_mul_le_self _ _)

theorem lt_value_upper : b.value < (b.upper x).value := by
  obtain ⟨c, hc, hscaled, hunit⟩ := b.exists_denominator x
  have hpos : 0 < b.unit x := Nat.mul_pos (Nat.pow_pos (by decide)) (Interval.denominator_pos b)
  refine lt_of_mul_lt_mul_right ?_ hc.le
  rw [Decimal.value, upper, mul_assoc, ← hscaled, ← hunit, ← Nat.cast_mul, Nat.cast_lt]
  exact Nat.lt_mul_of_div_lt (Nat.lt_succ_self _) hpos

theorem value_upper_eq : (b.upper x).value = (b.lower x).value + 10 ^ x := by
  simp only [Decimal.value, lower, upper]
  push_cast
  ring

/-- The remainder tells which of the two decimals is nearer. -/
theorem two_mul_mod_lt_iff : 2 * (b.scaled x % b.unit x) < b.unit x ↔
    b.value - (b.lower x).value < (b.upper x).value - b.value := by
  obtain ⟨c, hc, hscaled, hunit⟩ := b.exists_denominator x
  have hsplit := Nat.mod_add_div' (b.scaled x) (b.unit x)
  rw [← Nat.cast_inj (R := ℚ), Nat.cast_add, Nat.cast_mul, hscaled, hunit] at hsplit
  have hlower : (b.lower x).value * c = (b.scaled x / b.unit x : ℕ) * (10 ^ x * c) := by
    rw [Decimal.value, lower, mul_assoc]
  have hscale := mul_lt_mul_iff_left₀ hc (b := b.value - (b.lower x).value)
    (c := (b.upper x).value - b.value)
  rw [← hscale, value_upper_eq, ← Nat.cast_lt (α := ℚ), Nat.cast_mul, hunit]
  constructor <;> intro h <;> push_cast at h ⊢ <;> linarith

/-- No decimal with the exponent lies strictly between the two. -/
theorem le_lower_or_upper_le (digits : ℕ) :
    (digits : ℚ) * 10 ^ x ≤ (b.lower x).value ∨ (b.upper x).value ≤ digits * 10 ^ x := by
  have hpos : (0 : ℚ) < 10 ^ x := by positivity
  rcases Nat.lt_or_ge (b.scaled x / b.unit x) digits with hlt | hge
  · exact .inr (mul_le_mul_of_nonneg_right (Nat.cast_le.2 hlt) hpos.le)
  · exact .inl (mul_le_mul_of_nonneg_right (Nat.cast_le.2 hge) hpos.le)

end Grid

/-- A number that reads back, and of the multiples of `10 ^ x` that do, none is nearer, or equally
near and greater. -/
structure IsNearest (b : Binary) (x : ℤ) (y : ℚ) : Prop where
  readsBack : b.ReadsBack y
  nearest (digits : ℕ) : b.ReadsBack (digits * 10 ^ x) →
    |y - b.value| < |digits * 10 ^ x - b.value| ∨
      |y - b.value| = |digits * 10 ^ x - b.value| ∧ digits * 10 ^ x ≤ y

section Nearest

variable {x : ℤ}

theorem isNearest_lower (hlower : b.ReadsBack (b.lower x).value)
    (hnearer : b.ReadsBack (b.upper x).value →
      b.value - (b.lower x).value < (b.upper x).value - b.value) :
    b.IsNearest x (b.lower x).value := by
  have hlow := b.value_lower_le x
  have hhigh := b.lt_value_upper x
  refine ⟨hlower, fun digits hreads => ?_⟩
  rw [abs_of_nonpos (sub_nonpos.2 hlow)]
  rcases b.le_lower_or_upper_le x digits with hle | hge
  · rw [abs_of_nonpos (sub_nonpos.2 (hle.trans hlow))]
    rcases hle.lt_or_eq with hlt | heq
    · exact .inl (by linarith)
    · exact .inr ⟨by rw [heq], heq.le⟩
  · have := hnearer (hreads.of_ge hge hhigh.le)
    rw [abs_of_nonneg (sub_nonneg.2 (hhigh.le.trans hge))]
    exact .inl (by linarith)

theorem isNearest_upper (hupper : b.ReadsBack (b.upper x).value)
    (hnearer : b.ReadsBack (b.lower x).value →
      (b.upper x).value - b.value ≤ b.value - (b.lower x).value) :
    b.IsNearest x (b.upper x).value := by
  have hlow := b.value_lower_le x
  have hhigh := b.lt_value_upper x
  refine ⟨hupper, fun digits hreads => ?_⟩
  rw [abs_of_nonneg (sub_nonneg.2 hhigh.le)]
  rcases b.le_lower_or_upper_le x digits with hle | hge
  · have := hnearer (hreads.of_le hle hlow)
    rw [abs_of_nonpos (sub_nonpos.2 (hle.trans hlow))]
    have hdist : (b.upper x).value - b.value ≤ -(digits * 10 ^ x - b.value) := by linarith
    exact hdist.lt_or_eq.imp_right fun heq => ⟨heq, hle.trans (hlow.trans hhigh.le)⟩
  · rw [abs_of_nonneg (sub_nonneg.2 (hhigh.le.trans hge))]
    rcases hge.lt_or_eq with hlt | heq
    · exact .inl (by linarith)
    · exact .inr ⟨by rw [heq], heq.ge⟩

/-- What `nearest?` finds is nearest, and it finds something if any decimal with the exponent reads
back. -/
theorem nearest?_cases (hpos : 0 < b.significand) (x : ℤ) :
    (∃ d, b.interval.nearest? x = some d ∧ d.exponent = x ∧ b.IsNearest x d.value) ∨
      b.interval.nearest? x = none ∧ ∀ digits : ℕ, ¬ b.ReadsBack (digits * 10 ^ x) := by
  have hlower := Interval.contains_iff hpos (b.lower x)
  have hupper := Interval.contains_iff hpos (b.upper x)
  rw [nearest?_eq]
  cases hl : b.interval.contains (b.lower x) with
  | true =>
    cases hu : b.interval.contains (b.upper x) with
    | true =>
      by_cases hnearer : 2 * (b.scaled x % b.unit x) < b.unit x
      · refine .inl ⟨b.lower x, by simp only [if_pos hnearer], rfl, ?_⟩
        exact isNearest_lower (hlower.1 hl) fun _ => (b.two_mul_mod_lt_iff x).1 hnearer
      · refine .inl ⟨b.upper x, by simp only [if_neg hnearer], rfl, ?_⟩
        exact isNearest_upper (hupper.1 hu) fun _ =>
          not_lt.1 fun hlt => hnearer ((b.two_mul_mod_lt_iff x).2 hlt)
    | false =>
      refine .inl ⟨b.lower x, rfl, rfl, isNearest_lower (hlower.1 hl) fun hreads => ?_⟩
      cases hu.symm.trans (hupper.2 hreads)
  | false =>
    cases hu : b.interval.contains (b.upper x) with
    | true =>
      refine .inl ⟨b.upper x, rfl, rfl, isNearest_upper (hupper.1 hu) fun hreads => ?_⟩
      cases hl.symm.trans (hlower.2 hreads)
    | false =>
      refine .inr ⟨rfl, fun digits hreads => ?_⟩
      rcases b.le_lower_or_upper_le x digits with hle | hge
      · cases hl.symm.trans (hlower.2 (hreads.of_le hle (b.value_lower_le x)))
      · cases hu.symm.trans (hupper.2 (hreads.of_ge hge (b.lt_value_upper x).le))

end Nearest

/-! ### How many digits there are -/

theorem leadingZeros_spec {denominator fuel number : ℕ} (hlt : number < denominator)
    (hfuel : denominator ≤ 10 ^ (fuel + 1) * number) :
    10 ^ leadingZeros denominator fuel number * number < denominator ∧
      denominator ≤ 10 ^ (leadingZeros denominator fuel number + 1) * number := by
  induction fuel generalizing number with
  | zero => exact ⟨by simpa [leadingZeros] using hlt, hfuel⟩
  | succ fuel ih =>
    rw [leadingZeros]
    split
    · next hle => exact ⟨by simpa using hlt, by simpa using hle⟩
    · next hgt =>
      have hnext := ih (not_le.1 hgt) (by rwa [pow_succ, mul_assoc] at hfuel)
      rw [← mul_assoc, ← mul_assoc, ← pow_succ, ← pow_succ] at hnext
      exact hnext

theorem lt_length_toDigits {n : ℕ} (hpos : 0 < n) :
    10 ^ ((Nat.toDigits 10 n).length - 1) ≤ n ∧ n < 10 ^ (Nat.toDigits 10 n).length := by
  have hlength := Nat.length_toDigits_pos (b := 10) (n := n)
  refine ⟨?_, (Nat.length_toDigits_le_iff (by decide) hlength).1 le_rfl⟩
  rcases Nat.eq_zero_or_pos ((Nat.toDigits 10 n).length - 1) with hzero | hmore
  · rw [hzero]
    exact hpos
  · refine not_lt.1 fun hlt => ?_
    have := (Nat.length_toDigits_le_iff (by decide) hmore).2 hlt
    omega

theorem magnitude_spec (hpos : 0 < b.significand) :
    (10 : ℚ) ^ (b.interval.magnitude - 1) ≤ b.value ∧ b.value < 10 ^ b.interval.magnitude := by
  have hden := Interval.denominator_pos b
  have hden' : (0 : ℚ) < b.interval.denominator := Nat.cast_pos.2 hden
  have hvalue : b.value = b.interval.number / b.interval.denominator := by
    rw [Interval.number_eq, mul_div_cancel_right₀ _ hden'.ne']
  rw [Interval.magnitude, hvalue, le_div_iff₀ hden', div_lt_iff₀ hden']
  split
  · next hle =>
    obtain ⟨hlow, hhigh⟩ := lt_length_toDigits (Nat.div_pos hle hden)
    have hlength := Nat.length_toDigits_pos (b := 10)
      (n := b.interval.number / b.interval.denominator)
    have hcast : ((Nat.toDigits 10 (b.interval.number / b.interval.denominator)).length : ℤ) - 1 =
      ((Nat.toDigits 10 (b.interval.number / b.interval.denominator)).length - 1 : ℕ) := by omega
    rw [hcast, zpow_natCast, zpow_natCast]
    constructor
    · exact_mod_cast (Nat.le_div_iff_mul_le hden).1 hlow
    · exact_mod_cast (Nat.div_lt_iff_lt_mul hden).1 hhigh
  · next hgt =>
    have hnumber : 0 < b.interval.number := by
      simp only [interval, Nat.one_shiftLeft]
      positivity
    have hfuel : b.interval.denominator ≤
        10 ^ (b.interval.denominator.log2 + 1) * b.interval.number := by
      calc b.interval.denominator ≤ 2 ^ (b.interval.denominator.log2 + 1) := Nat.lt_log2_self.le
        _ ≤ 10 ^ (b.interval.denominator.log2 + 1) := Nat.pow_le_pow_left (by decide) _
        _ ≤ _ := Nat.le_mul_of_pos_right _ hnumber
    obtain ⟨hhigh, hlow⟩ := leadingZeros_spec (not_le.1 hgt) hfuel
    generalize leadingZeros _ _ _ = zeros at hhigh hlow
    rw [zpow_sub_one₀ (by norm_num), zpow_neg, zpow_natCast, ← mul_inv, ← pow_succ,
      inv_mul_le_iff₀ (by positivity), lt_inv_mul_iff₀ (by positivity)]
    exact ⟨by exact_mod_cast hlow, by exact_mod_cast hhigh⟩

/-! ### The shortest decimal -/

/-- The numbers other than zero, as their bits give them. -/
structure IsProper (b : Binary) : Prop where
  pos : 0 < b.significand
  lt_two_pow : b.significand < 2 ^ 53
  eq_of_isNarrowBelow : b.isNarrowBelow = true → b.significand = 2 ^ 52

/-- Numbers of seventeen digits are closer to each other than the midpoints. -/
theorem IsProper.zpow_lt (hb : b.IsProper) :
    (10 : ℚ) ^ (b.interval.magnitude - 17) < b.highest - b.lowest := by
  obtain ⟨hlow, -⟩ := magnitude_spec hb.pos
  have hsplit : b.interval.magnitude - 1 = b.interval.magnitude - 17 + 16 := by omega
  rw [hsplit, zpow_add₀ (by norm_num)] at hlow
  have hpow : (0 : ℚ) < 2 ^ b.exponent := by positivity
  rw [highest, lowest, ← sub_mul]
  rw [value] at hlow
  by_cases hnarrow : b.isNarrowBelow
  · rw [if_pos hnarrow]
    rw [hb.eq_of_isNarrowBelow hnarrow] at hlow
    push_cast at hlow ⊢
    linarith
  · rw [if_neg hnarrow]
    have hsignificand : (b.significand : ℚ) * 2 ^ b.exponent < 2 ^ 53 * 2 ^ b.exponent :=
      mul_lt_mul_of_pos_right (by exact_mod_cast hb.lt_two_pow) hpow
    linarith

/-- Hence one of them lies between the midpoints. -/
theorem IsProper.exists_readsBack (hb : b.IsProper) :
    ∃ digits : ℕ, b.ReadsBack (digits * 10 ^ (b.interval.magnitude - 17)) := by
  have hwidth := hb.zpow_lt
  have hlower := b.value_lower_le (b.interval.magnitude - 17)
  have hupper := b.lt_value_upper (b.interval.magnitude - 17)
  have hstep := b.value_upper_eq (b.interval.magnitude - 17)
  by_cases hreads : b.lowest < (b.lower (b.interval.magnitude - 17)).value
  · exact ⟨_, readsBack_of_lt hreads (hlower.trans_lt b.value_lt_highest)⟩
  · have hhighest : (b.upper (b.interval.magnitude - 17)).value < b.highest := by linarith
    exact ⟨_, readsBack_of_lt (b.lowest_lt_value.trans hupper) hhighest⟩

/-- The exponents are tried from the greatest on, and one of the seventeen is found. -/
theorem IsProper.exists_shortest (hb : b.IsProper) : ∃ n < 17,
    b.interval.nearest? (b.interval.magnitude - 1 - (n : ℕ)) = some b.shortest ∧
      ∀ m < n, b.interval.nearest? (b.interval.magnitude - 1 - (m : ℕ)) = none := by
  cases htried : (List.range 17).findSome? fun n : ℕ =>
      b.interval.nearest? (b.interval.magnitude - 1 - n) with
  | none =>
    have hlast := List.findSome?_eq_none_iff.1 htried 16 (by decide)
    obtain ⟨digits, hreads⟩ := hb.exists_readsBack
    have hexponent : b.interval.magnitude - 1 - (16 : ℕ) = b.interval.magnitude - 17 := by omega
    rw [hexponent] at hlast
    rcases nearest?_cases hb.pos (b.interval.magnitude - 17) with ⟨d, hd, -⟩ | ⟨-, hnot⟩
    · cases hlast.symm.trans hd
    · exact absurd hreads (hnot digits)
  | some d =>
    obtain ⟨before, n, after, hrange, hfound, hnone⟩ := List.findSome?_eq_some_iff.1 htried
    have hshortest : b.shortest = d := by
      change Option.getD ((List.range 17).findSome? fun n : ℕ =>
        b.interval.nearest? (b.interval.magnitude - 1 - n)) _ = d
      rw [htried, Option.getD_some]
    have hn : n ∈ List.range 17 := by simp [hrange]
    refine ⟨n, List.mem_range.1 hn, hshortest ▸ hfound, fun m hm => hnone m ?_⟩
    -- The numbers of a range ascend, so that a lesser one comes before.
    have hmem : m ∈ before ++ n :: after := by
      rw [← hrange]
      exact List.mem_range.2 (hm.trans (List.mem_range.1 hn))
    have hascend := hrange ▸ List.pairwise_lt_range (n := 17)
    have hafter := (List.pairwise_cons.1 (List.pairwise_append.1 hascend).2.1).1
    rcases List.mem_append.1 hmem with hbefore | hrest
    · exact hbefore
    · rcases List.mem_cons.1 hrest with rfl | hlater
      · exact absurd hm (lt_irrefl _)
      · exact absurd hm (hafter m hlater).asymm

/-- The shortest decimal of a number reads back, and of those with its exponent that do, it is
nearest. Below the first power of ten above the number, no decimal with a greater exponent reads
back. There are at most seventeen digits. -/
theorem shortest_spec (hb : b.IsProper) :
    b.IsNearest b.shortest.exponent b.shortest.value ∧
    IsGreatest {x : ℤ | x < b.interval.magnitude ∧ ∃ digits : ℕ, b.ReadsBack (digits * 10 ^ x)}
      b.shortest.exponent ∧
    b.interval.magnitude - 17 ≤ b.shortest.exponent := by
  obtain ⟨n, hn, hfound, hnone⟩ := hb.exists_shortest
  rcases nearest?_cases hb.pos (b.interval.magnitude - 1 - (n : ℕ)) with
    ⟨d, hd, hexponent, hnearest⟩ | ⟨hmissing, -⟩
  · obtain rfl := Option.some.inj (hd.symm.trans hfound)
    rw [hexponent]
    refine ⟨hnearest, ⟨⟨by omega, b.shortest.digits, ?_⟩, ?_⟩, by omega⟩
    · rw [← hexponent]
      exact hnearest.readsBack
    · rintro x ⟨hlt, digits, hreads⟩
      refine not_lt.1 fun hgt => ?_
      obtain ⟨m, rfl⟩ : ∃ m : ℕ, x = b.interval.magnitude - 1 - m :=
        ⟨(b.interval.magnitude - 1 - x).toNat, by omega⟩
      rcases nearest?_cases hb.pos (b.interval.magnitude - 1 - (m : ℕ)) with
        ⟨d', hd', -⟩ | ⟨-, hnot⟩
      · cases (hnone m (by omega)).symm.trans hd'
      · exact hnot digits hreads
  · cases hmissing.symm.trans hfound

/-- A tenth, and a number half-way between two decimals of sixteen digits. -/
example : (ofBits 0x3fb999999999999a).shortest = ⟨1, -1⟩ := by decide +kernel

example : (ofBits 0x3feffff000000000).shortest = ⟨9999923706054688, -16⟩ := by decide +kernel

theorem IsProper.digits_shortest_pos (hb : b.IsProper) : 0 < b.shortest.digits := by
  have hreads := (shortest_spec hb).1.readsBack
  have hlow : 0 < b.lowest := by
    have hone : (1 : ℚ) ≤ b.significand := by exact_mod_cast hb.pos
    refine mul_pos ?_ (by positivity)
    split <;> linarith
  have hpos : 0 < b.shortest.value := by
    rw [ReadsBack] at hreads
    split_ifs at hreads
    · exact hlow.trans_le hreads.1
    · exact hlow.trans hreads.1
  refine Nat.pos_of_ne_zero fun hzero => ?_
  rw [Decimal.value, hzero, Nat.cast_zero, zero_mul] at hpos
  exact lt_irrefl _ hpos

/-! ### From bits -/

theorem isProper_ofBits {bits : UInt64} (hpos : 0 < (ofBits bits).significand) :
    (ofBits bits).IsProper := by
  have hfraction : bits.toNat % 2 ^ 52 < 2 ^ 52 := Nat.mod_lt _ (by decide)
  simp only [ofBits, Nat.one_shiftLeft] at hpos ⊢
  split_ifs at hpos ⊢
  · exact ⟨hpos, hfraction.trans (by decide), fun hnarrow => by cases hnarrow⟩
  · refine ⟨hpos, by dsimp only; omega, fun hnarrow => ?_⟩
    -- The next number below is nearer just if the fraction is zero.
    have hzero := of_decide_eq_true (Bool.and_eq_true_iff.1 hnarrow).1
    dsimp only
    rw [hzero, Nat.add_zero]

section Unpacked

open Float.Model.UnpackedFloat

variable {x : Float} {s : Sign} {m : ℕ} {e : ℤ} {hm : 0 < m}

/-- The significand and the exponent of a finite number are those that its bits give. -/
theorem ofBits_of_unpack (h : x.toModel.unpack = .finite s m e hm) :
    (ofBits x.toBits).significand = m ∧ (ofBits x.toBits).exponent = e := by
  have hfraction : (@unpackMantissa .binary64 x.toBits.toBitVec).toNat =
      x.toBits.toNat % 2 ^ 52 := by
    simp [unpackMantissa]
  have hscale : (@unpackExponent .binary64 x.toBits.toBitVec).toNat =
      x.toBits.toNat / 2 ^ 52 % 2 ^ 11 := by
    simp [unpackExponent, Nat.shiftRight_eq_div_pow]
  simp only [ofBits, Nat.one_shiftLeft, ← hfraction, ← hscale]
  rcases (Binary64.unpack_eq_finite (b := x.toBits.toBitVec) h).2 with
    ⟨hzero, rfl, rfl⟩ | ⟨hne, rfl, rfl⟩
  · rw [if_pos (by rw [hzero]; rfl)]
    exact ⟨rfl, rfl⟩
  · have hne' : (@unpackExponent .binary64 x.toBits.toBitVec).toNat ≠ 0 := fun hzero =>
      hne (BitVec.eq_of_toNat_eq hzero)
    rw [if_neg hne', BitVec.toNat_append, ← Nat.shiftLeft_add_eq_or_of_lt (BitVec.isLt _)]
    exact ⟨rfl, rfl⟩

/-- A finite number other than zero has a shortest decimal. -/
theorem isProper_of_unpack (h : x.toModel.unpack = .finite s m e hm) :
    (ofBits x.toBits).IsProper ∧ (ofBits x.toBits).value = m * 2 ^ e := by
  obtain ⟨hsignificand, hexponent⟩ := ofBits_of_unpack h
  refine ⟨isProper_ofBits (by rwa [hsignificand]), ?_⟩
  rw [value, hsignificand, hexponent]

end Unpacked

end Binary

end BulkLookup
