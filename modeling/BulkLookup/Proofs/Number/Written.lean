import BulkLookup.Decimal.Text
import BulkLookup.Proofs.Number.Shortest
import Mathlib.Data.List.TakeWhile

/-!
# What the text of a decimal spells

A decimal is written with the zeros at its end left out, and with a decimal point put in. Both its
notations spell the number that it is, and they keep the form of a number: there is a digit on
either side of the point of the one, and a digit other than zero at the front of the other.

## Main definitions

* `Decimal.spelled` — the number that digits around a decimal point spell
* `signText` — the text of a sign

## Main results

* `Decimal.positional_spec`, `Decimal.scientific_spec` — the form and the number of the notations
* `numberText_of_unpack` — the text of a binary64 number
-/

namespace BulkLookup

namespace Decimal

variable {d : Decimal}

/-- The digits of a decimal are its significant ones and zeros. -/
theorem toDigits_eq (d : Decimal) :
    ∃ zeros, Nat.toDigits 10 d.digits = d.significantDigits ++ List.replicate zeros '0' := by
  have hsplit := (Nat.toDigits 10 d.digits).reverse.takeWhile_append_dropWhile (p := (· == '0'))
  have hzeros : (Nat.toDigits 10 d.digits).reverse.takeWhile (· == '0') =
      List.replicate ((Nat.toDigits 10 d.digits).reverse.takeWhile (· == '0')).length '0' := by
    refine List.eq_replicate_iff.2 ⟨rfl, fun c hc => ?_⟩
    simpa using List.mem_takeWhile_imp hc
  refine ⟨((Nat.toDigits 10 d.digits).reverse.takeWhile (· == '0')).length, ?_⟩
  have := congrArg List.reverse hsplit
  rw [List.reverse_append, List.reverse_reverse, hzeros, List.reverse_replicate] at this
  exact this.symm

/-- What digits before and behind a decimal point spell, times a power of ten. -/
def spelled (whole fraction : List Char) (exponent : ℤ) : ℚ :=
  (Nat.ofDigitChars 10 (whole ++ fraction) 0 : ℚ) * 10 ^ (exponent - fraction.length)

/-- The number of a decimal, from the digits that are written. -/
theorem value_eq (d : Decimal) :
    d.value = Nat.ofDigitChars 10 d.significantDigits 0 *
      10 ^ (d.magnitude - d.significantDigits.length) := by
  obtain ⟨zeros, hdigits⟩ := d.toDigits_eq
  have hvalue : d.digits = Nat.ofDigitChars 10 d.significantDigits 0 * 10 ^ zeros := by
    rw [← Nat.ofDigitChars_ten_toDigits (n := d.digits), hdigits, Nat.ofDigitChars_append,
      Nat.ofDigitChars_replicate_zero, mul_comm]
  have hmagnitude : d.magnitude - d.significantDigits.length = zeros + d.exponent := by
    rw [magnitude, hdigits, List.length_append, List.length_replicate]
    omega
  rw [value, hvalue, hmagnitude, zpow_add₀ (by norm_num), zpow_natCast]
  push_cast
  ring

theorem isDigit_of_mem {c : Char} (hc : c ∈ d.significantDigits) : c.isDigit = true := by
  obtain ⟨zeros, hdigits⟩ := d.toDigits_eq
  refine Nat.isDigit_of_mem_toDigits (b := 10) (n := d.digits) (by decide) (by decide) ?_
  rw [hdigits]
  exact List.mem_append_left _ hc

theorem isDigit_of_mem_replicate {zeros : ℕ} {c : Char} (hc : c ∈ List.replicate zeros '0') :
    c.isDigit = true := by
  rw [List.eq_of_mem_replicate hc]
  decide

/-! ### Where the point stands -/

section Point

variable {digits : List Char} {k : ℤ}

/-- Zeros in front of the digits change nothing but the number of digits behind the point. -/
theorem spelled_behind (hk : k ≤ 0) :
    spelled ['0'] (List.replicate (-k).toNat '0' ++ digits) 0 =
      Nat.ofDigitChars 10 digits 0 * 10 ^ (k - digits.length) := by
  have hzeros : Nat.ofDigitChars 10 (['0'] ++ (List.replicate (-k).toNat '0' ++ digits)) 0 =
      Nat.ofDigitChars 10 digits 0 := by
    rw [Nat.ofDigitChars_append, Nat.ofDigitChars_append, Nat.ofDigitChars_replicate_zero]
    rfl
  rw [spelled, hzeros, List.length_append, List.length_replicate]
  congr 2
  omega

/-- Every zero behind the digits counts as a factor of ten, but for the one behind the point. -/
theorem spelled_before (hk : digits.length ≤ k) :
    spelled (digits ++ List.replicate (k.toNat - digits.length) '0') ['0'] 0 =
      Nat.ofDigitChars 10 digits 0 * 10 ^ (k - digits.length) := by
  have hzeros : Nat.ofDigitChars 10
      (digits ++ List.replicate (k.toNat - digits.length) '0' ++ ['0']) 0 =
        10 ^ (k.toNat - digits.length + 1) * Nat.ofDigitChars 10 digits 0 := by
    rw [List.append_assoc, ← List.replicate_succ', Nat.ofDigitChars_append,
      Nat.ofDigitChars_replicate_zero]
  have hexponent : k - digits.length = (k.toNat - digits.length + 1 : ℕ) + (0 - 1 : ℤ) := by
    omega
  rw [spelled, hzeros, hexponent, zpow_add₀ (by norm_num), zpow_natCast, List.length_singleton]
  push_cast
  ring

theorem spelled_among (hk : 0 ≤ k) (hlen : k ≤ digits.length) :
    spelled (digits.take k.toNat) (digits.drop k.toNat) 0 =
      Nat.ofDigitChars 10 digits 0 * 10 ^ (k - digits.length) := by
  rw [spelled, List.take_append_drop, List.length_drop]
  congr 2
  omega

end Point

/-- Written out, a decimal has digits on either side of its point, and they spell it. -/
theorem positional_spec (d : Decimal) : ∃ whole fraction : List Char,
    d.positional = whole ++ '.' :: fraction ∧ whole ≠ [] ∧ fraction ≠ [] ∧
    (∀ c ∈ whole ++ fraction, c.isDigit = true) ∧ spelled whole fraction 0 = d.value := by
  have hdigit : ∀ c ∈ d.significantDigits, c.isDigit = true := fun c => isDigit_of_mem
  rw [value_eq, positional]
  generalize d.significantDigits = digits at hdigit ⊢
  generalize d.magnitude = k
  rcases le_or_gt k 0 with hk | hk <;> rcases le_or_gt (digits.length : ℤ) k with hlen | hlen
  · -- Without digits the number is zero.
    obtain rfl : digits = [] := List.eq_nil_of_length_eq_zero (by omega)
    refine ⟨['0'], ['0'], by rw [if_pos hk, if_pos hlen], by decide, by decide,
      fun _ => @isDigit_of_mem_replicate 2 _, ?_⟩
    simp [spelled, Nat.ofDigitChars_eq_foldl]
  · refine ⟨['0'], List.replicate (-k).toNat '0' ++ digits, ?_, by decide, ?_, ?_,
      spelled_behind hk⟩
    · rw [if_pos hk, if_neg (not_le.2 hlen), Int.toNat_of_nonpos hk, List.drop_zero]
    · refine List.ne_nil_of_length_pos ?_
      rw [List.length_append, List.length_replicate]
      omega
    · intro c hc
      rcases List.mem_append.1 hc with hc | hc
      · rw [List.mem_singleton.1 hc]
        decide
      · exact (List.mem_append.1 hc).elim isDigit_of_mem_replicate (hdigit c)
  · refine ⟨digits ++ List.replicate (k.toNat - digits.length) '0', ['0'], ?_, ?_, by decide, ?_,
      spelled_before hlen⟩
    · rw [if_neg (not_le.2 hk), if_pos hlen, List.take_of_length_le (by omega)]
    · refine List.ne_nil_of_length_pos ?_
      rw [List.length_append, List.length_replicate]
      omega
    · intro c hc
      rcases List.mem_append.1 hc with hc | hc
      · exact (List.mem_append.1 hc).elim (hdigit c) isDigit_of_mem_replicate
      · rw [List.mem_singleton.1 hc]
        decide
  · have hlength : 0 < (digits.take k.toNat).length ∧ 0 < (digits.drop k.toNat).length := by
      rw [List.length_take, List.length_drop]
      omega
    refine ⟨digits.take k.toNat, digits.drop k.toNat, ?_, List.ne_nil_of_length_pos hlength.1,
      List.ne_nil_of_length_pos hlength.2, by rwa [List.take_append_drop],
      spelled_among hk.le hlen.le⟩
    have hpadding : k.toNat - digits.length = 0 := by omega
    rw [if_neg (not_le.2 hk), if_neg (not_le.2 hlen), Int.toNat_of_nonpos (by omega : -k ≤ 0),
      hpadding, List.replicate_zero, List.append_nil, List.nil_append]

example : String.ofList (positional ⟨3, 2⟩) = "300.0" := by decide +kernel

example : String.ofList (positional ⟨1220703125, -13⟩) = "0.0001220703125" := by decide +kernel

/-- A number other than zero does not begin with a zero. -/
theorem head?_toDigits_ne {n : ℕ} (hn : 0 < n) : (Nat.toDigits 10 n).head? ≠ some '0' := by
  induction n using Nat.strong_induction_on with
  | h n ih =>
    rw [Nat.toDigits_eq_if (by decide)]
    split
    · next hlt =>
      have hdigits : ∀ n < 10, 0 < n → [n.digitChar].head? ≠ some '0' := by decide
      exact hdigits n hlt hn
    · next hge =>
      rw [List.head?_append_of_ne_nil _ Nat.toDigits_ne_nil]
      exact ih (n / 10) (Nat.div_lt_self hn (by decide)) (by omega)

/-- Written with a power of ten, a decimal other than zero has one digit before its point, which is
not a zero, and the digits and the power spell it. -/
theorem scientific_spec {d : Decimal} (hd : 0 < d.digits) : ∃ (lead : Char) (rest : List Char),
    d.scientific = lead :: (if rest.isEmpty then [] else '.' :: rest) ++
      'e' :: (toString (d.magnitude - 1)).toList ∧
    lead ≠ '0' ∧ (∀ c ∈ lead :: rest, c.isDigit = true) ∧
    spelled [lead] rest (d.magnitude - 1) = d.value := by
  have hdigit : ∀ c ∈ d.significantDigits, c.isDigit = true := fun c => isDigit_of_mem
  have hvalue := d.value_eq
  rw [scientific]
  cases hdigits : d.significantDigits with
  | nil =>
    have hpos : 0 < d.value := mul_pos (Nat.cast_pos.2 hd) (by positivity)
    rw [hvalue, hdigits, Nat.ofDigitChars_nil, Nat.cast_zero, zero_mul] at hpos
    exact absurd hpos (lt_irrefl _)
  | cons lead rest =>
    rw [hdigits] at hdigit hvalue
    refine ⟨lead, rest, rfl, ?_, hdigit, ?_⟩
    · rintro rfl
      obtain ⟨zeros, hall⟩ := d.toDigits_eq
      refine head?_toDigits_ne hd ?_
      rw [hall, hdigits, List.cons_append, List.head?_cons]
    · rw [spelled, hvalue, List.length_cons]
      congr 2
      push_cast
      omega

example : String.ofList (scientific ⟨6103515625, -14⟩) = "6.103515625e-5" := by decide +kernel

/-! ### Which notation is used -/

/-- Whether a decimal reaches a power of ten can be told from its magnitude. -/
theorem zpow_le_value_iff (hd : 0 < d.digits) (k : ℤ) : 10 ^ k ≤ d.value ↔ k < d.magnitude := by
  obtain ⟨hlow, hhigh⟩ := Binary.lt_length_toDigits hd
  have hlength := Nat.length_toDigits_pos (b := 10) (n := d.digits)
  have hpow : (0 : ℚ) < 10 ^ d.exponent := by positivity
  have hlow' : (10 : ℚ) ^ (d.magnitude - 1) ≤ d.value := by
    have hlead : d.magnitude - 1 = ((Nat.toDigits 10 d.digits).length - 1 : ℕ) + d.exponent := by
      rw [magnitude]
      omega
    rw [hlead, value, zpow_add₀ (by norm_num), zpow_natCast, mul_le_mul_iff_left₀ hpow]
    exact_mod_cast hlow
  have hhigh' : d.value < 10 ^ d.magnitude := by
    rw [magnitude, value, zpow_add₀ (by norm_num), zpow_natCast, mul_lt_mul_iff_left₀ hpow]
    exact_mod_cast hhigh
  constructor
  · intro h
    exact (zpow_lt_zpow_iff_right₀ (by norm_num)).1 (h.trans_lt hhigh')
  · intro h
    exact (zpow_le_zpow_right₀ (by norm_num) (by omega)).trans hlow'

end Decimal

/-! ### Numbers -/

section Numbers

open Float.Model.UnpackedFloat (Sign unpackSign)

variable {x : Float} {s : Sign} {m : ℕ} {e : ℤ} {hm : 0 < m}

/-- The text of a sign. -/
def signText : Sign → String
  | .positive => ""
  | .negative => "-"

theorem signText_of_unpack (h : x.toModel.unpack = .finite s m e hm) :
    signText s = if x.toBits >>> 63 = 0 then "" else "-" := by
  have hbit : (@unpackSign .binary64 x.toBits.toBitVec).toNat = (x.toBits >>> 63).toNat := by
    have hlt := x.toBits.toNat_lt
    change (x.toBits.toBitVec.extractLsb 63 63).toNat = _
    rw [BitVec.extractLsb_toNat, UInt64.toNat_shiftRight, Nat.shiftRight_eq_div_pow,
      Nat.shiftRight_eq_div_pow]
    change x.toBits.toNat / 2 ^ 63 % 2 = x.toBits.toNat / 2 ^ 63
    omega
  have hzero : @unpackSign .binary64 x.toBits.toBitVec = 0#1 ↔ x.toBits >>> 63 = 0 := by
    rw [← UInt64.toNat_inj, ← hbit, BitVec.toNat_eq]
    rfl
  rw [(Binary64.unpack_eq_finite (b := x.toBits.toBitVec) h).1, Sign.ofBitVec, apply_ite signText]
  exact if_congr hzero rfl rfl

/-- The text of a finite number other than zero is its sign and its shortest decimal, which is
written out from `0.0001` on and below `10 ^ 16`. -/
theorem numberText_of_unpack {d : Decimal} (h : x.toModel.unpack = .finite s m e hm)
    (hd : d = (Binary.ofBits x.toBits).shortest) :
    numberText x = signText s ++ String.ofList
      (if 10 ^ (-4 : ℤ) ≤ d.value ∧ d.value < 10 ^ (16 : ℤ) then d.positional
        else d.scientific) := by
  have hpos : 0 < d.digits := hd ▸ (Binary.isProper_of_unpack h).1.digits_shortest_pos
  have hplain : (-4 < d.magnitude && d.magnitude ≤ 16) = true ↔
      10 ^ (-4 : ℤ) ≤ d.value ∧ d.value < 10 ^ (16 : ℤ) := by
    have hlow := Decimal.zpow_le_value_iff hpos (-4)
    have hhigh := not_congr (Decimal.zpow_le_value_iff hpos 16)
    rw [not_le, not_lt] at hhigh
    rw [Bool.and_eq_true, decide_eq_true_iff, decide_eq_true_iff, hlow, hhigh]
  -- The number is none of those that have a text of their own.
  have hnan : x.isNaN = false := by
    change x.toModel.unpack.isNaN = false
    rw [h]
    rfl
  have hinf : x.isInf = false := by
    change x.toModel.unpack.isInf = false
    rw [h]
    rfl
  have hzero : (x == 0) = false := by
    change x.toModel.unpack.beq (.zero .positive) = false
    rw [h]
    cases s <;> rfl
  simp only [numberText, hnan, hinf, hzero, Bool.false_eq_true, if_false, signText_of_unpack h,
    ← hd, hplain]

end Numbers

end BulkLookup
