import BulkLookup.Text.Quoted
import Mathlib.Data.List.Basic
import Mathlib.Data.List.Chain

/-!
# Quoted text can be shown and told apart

Whatever is in a string, its quoted form has only characters that can be shown by themselves, and it
is the quoted form of no other string. What is written for one character can be told from what is
written for any other as soon as it is read: a plain character is neither a quote nor a backslash, a
letter behind a backslash says which character is meant, and a code point ends with its brace.

## Main definitions

* `Quoted.letters` — the characters that are written with a letter

## Main results

* `isUnprintable_iff` — a character that cannot be shown lies in exactly one of the ranges
* `Quoted.quote_injective` — different strings have different quoted forms
* `Quoted.isUnprintable_of_mem_quote` — quoted text can be shown
-/

namespace BulkLookup

/-! ### Ranges -/

/-- Two ranges in ascending order, with at least one code point between them. -/
def IsBelow (a b : Nat × Nat) : Prop := a.1 ≤ a.2 ∧ a.2 + 1 < b.1 ∧ b.1 ≤ b.2

instance : DecidableRel IsBelow := fun a b =>
  inferInstanceAs (Decidable (a.1 ≤ a.2 ∧ a.2 + 1 < b.1 ∧ b.1 ≤ b.2))

instance : Trans IsBelow IsBelow IsBelow where
  trans h h' := ⟨h.1, by have := h.2; have := h'.2; omega, h'.2.2⟩

theorem pairwise_unprintableRanges : unprintableRanges.Pairwise IsBelow :=
  -- Only neighbours are compared: there are too many pairs to decide them one by one.
  List.IsChain.pairwise (by decide +kernel)

/-- A character cannot be shown by itself just when it lies in one of the ranges, in one only. -/
theorem isUnprintable_iff {c : Char} :
    isUnprintable c = true ↔
      ∃! range, range ∈ unprintableRanges ∧ range.1 ≤ c.toNat ∧ c.toNat ≤ range.2 := by
  constructor
  · intro hc
    obtain ⟨a, ha, hin⟩ := List.any_eq_true.1 hc
    have hin : a.1 ≤ c.toNat ∧ c.toNat ≤ a.2 := by simpa using hin
    refine ⟨a, ⟨ha, hin⟩, fun b ⟨hb, hin'⟩ => ?_⟩
    have hordered := List.pairwise_iff_getElem.1 pairwise_unprintableRanges
    obtain ⟨i, hi, rfl⟩ := List.getElem_of_mem ha
    obtain ⟨j, hj, rfl⟩ := List.getElem_of_mem hb
    -- Of two different ranges one ends before the other begins.
    rcases Nat.lt_trichotomy i j with hlt | rfl | hlt
    · have := (hordered i j hi hj hlt).2.1
      omega
    · rfl
    · have := (hordered j i hj hi hlt).2.1
      omega
  · rintro ⟨a, ⟨ha, hin⟩, -⟩
    exact List.any_eq_true.2 ⟨a, ha, by simpa using hin⟩

/-- The half-width voicing marks stand by themselves, the half-width Hangul filler does not. -/
example : isUnprintable '\uff9e' = false ∧ isUnprintable '\uff9f' = false ∧
    isUnprintable '\uffa0' = true := by decide +kernel

namespace Quoted

/-! ### Hexadecimal digits -/

theorem digitChar_injective : ∀ m < 16, ∀ n < 16, Nat.digitChar m = Nat.digitChar n → m = n := by
  decide

theorem toDigits_injective : Function.Injective (Nat.toDigits 16) := by
  intro m
  induction m using Nat.strongRecOn with
  | ind m ih =>
    intro n h
    have hpos : ∀ k, 0 < (Nat.toDigits 16 k).length := fun _ => Nat.length_toDigits_pos
    rw [Nat.toDigits_eq_if (by decide), Nat.toDigits_eq_if (n := n) (by decide)] at h
    split at h <;> split at h
    · next hm hn => exact digitChar_injective m hm n hn (List.singleton_inj.1 h)
    -- One digit is not as many as more than one.
    · have hlength := congrArg List.length h
      simp only [List.length_append, List.length_singleton] at hlength
      have := hpos (n / 16)
      omega
    · have hlength := congrArg List.length h
      simp only [List.length_append, List.length_singleton] at hlength
      have := hpos (m / 16)
      omega
    · next hm hn =>
      obtain ⟨hrest, hlast⟩ := List.append_inj' h rfl
      have hdiv := ih (m / 16) (Nat.div_lt_self (by omega) (by decide)) hrest
      have hmod := digitChar_injective _ (Nat.mod_lt m (by decide)) _ (Nat.mod_lt n (by decide))
        (List.singleton_inj.1 hlast)
      omega

theorem exists_digitChar {n : Nat} {c : Char} (hc : c ∈ Nat.toDigits 16 n) :
    ∃ i < 16, c = Nat.digitChar i := by
  induction n using Nat.strongRecOn with
  | ind n ih =>
    rw [Nat.toDigits_eq_if (by decide)] at hc
    split at hc
    · next hlt => exact ⟨n, hlt, List.mem_singleton.1 hc⟩
    · rcases List.mem_append.1 hc with hc | hc
      · exact ih (n / 16) (Nat.div_lt_self (by omega) (by decide)) hc
      · exact ⟨_, Nat.mod_lt n (by decide), List.mem_singleton.1 hc⟩

/-- What is in front of a brace is told from what follows it if there is no brace in it. -/
theorem append_brace_inj {x y s t : List Char} (hx : '\x7d' ∉ x) (hy : '\x7d' ∉ y)
    (h : x ++ '\x7d' :: s = y ++ '\x7d' :: t) : x = y ∧ s = t := by
  induction x generalizing y with
  | nil =>
    cases y with
    | nil => exact ⟨rfl, List.tail_eq_of_cons_eq h⟩
    | cons d y => exact absurd (List.head_eq_of_cons_eq h ▸ List.mem_cons_self) hy
  | cons c x ih =>
    cases y with
    | nil => exact absurd (List.head_eq_of_cons_eq h ▸ List.mem_cons_self) hx
    | cons d y =>
      obtain ⟨rfl, hrest⟩ := List.cons.inj h
      have hx' : '\x7d' ∉ x := List.not_mem_of_not_mem_cons hx
      obtain ⟨rfl, rfl⟩ := ih hx' (List.not_mem_of_not_mem_cons hy) hrest
      exact ⟨rfl, rfl⟩

theorem brace_notMem_toDigits (n : Nat) : '\x7d' ∉ Nat.toDigits 16 n := by
  intro hmem
  obtain ⟨i, -, heq⟩ := exists_digitChar hmem
  exact Nat.digitChar_ne '\x7d' rfl heq.symm

/-! ### What is written for one character -/

/-- The characters that are written with a letter behind a backslash, and their letters. -/
def letters : List (Char × Char) :=
  [('"', '"'), ('\\', '\\'), ('\t', 't'), ('\n', 'n'), ('\r', 'r'), ('\x00', '0')]

/-- A letter behind a backslash, a code point, or the character itself. -/
theorem escape_cases (c : Char) :
    (∃ letter, (c, letter) ∈ letters ∧ escape c = ['\\', letter]) ∨
      escape c = codePoint c ∨
      (c ≠ '"' ∧ c ≠ '\\' ∧ isUnprintable c = false ∧ escape c = [c]) := by
  unfold escape
  split
  · exact .inl ⟨'"', by decide, rfl⟩
  · exact .inl ⟨'\\', by decide, rfl⟩
  · exact .inl ⟨'t', by decide, rfl⟩
  · exact .inl ⟨'n', by decide, rfl⟩
  · exact .inl ⟨'r', by decide, rfl⟩
  · exact .inl ⟨'0', by decide, rfl⟩
  · by_cases h : isUnprintable c = true
    · exact .inr (.inl (if_pos h))
    · exact .inr (.inr ⟨‹_›, ‹_›, by simpa using h, if_neg h⟩)

theorem eq_of_mem_letters {a b : Char × Char} (ha : a ∈ letters) (hb : b ∈ letters)
    (h : a.2 = b.2) : a = b := by
  have hinj : ∀ a ∈ letters, ∀ b ∈ letters, a.2 = b.2 → a = b := by decide
  exact hinj a ha b hb h

theorem codePoint_append_inj {c d : Char} {s t : List Char}
    (h : codePoint c ++ s = codePoint d ++ t) : c = d ∧ s = t := by
  have h : Nat.toDigits 16 c.toNat ++ '\x7d' :: s = Nat.toDigits 16 d.toNat ++ '\x7d' :: t := by
    simpa [codePoint] using h
  obtain ⟨hdigits, rfl⟩ := append_brace_inj (brace_notMem_toDigits _) (brace_notMem_toDigits _) h
  exact ⟨Char.toNat_inj.1 (toDigits_injective hdigits), rfl⟩

/-- What is written for a character is told from what is written for another, whatever follows. -/
theorem escape_append_inj {c d : Char} {s t : List Char} (h : escape c ++ s = escape d ++ t) :
    c = d ∧ s = t := by
  have hu : ∀ a ∈ letters, a.2 ≠ 'u' := by decide
  rcases escape_cases c with ⟨l, hl, hc⟩ | hc | ⟨-, hc', -, hc⟩ <;>
    rcases escape_cases d with ⟨k, hk, hd⟩ | hd | ⟨-, hd', -, hd⟩ <;>
    rw [hc, hd] at h
  · obtain ⟨rfl, rfl⟩ : l = k ∧ s = t := by simpa using h
    exact ⟨congrArg Prod.fst (eq_of_mem_letters hl hk rfl), rfl⟩
  · exact absurd (List.head_eq_of_cons_eq (List.tail_eq_of_cons_eq h)) (hu _ hl)
  · exact absurd (List.head_eq_of_cons_eq h).symm hd'
  · exact absurd (List.head_eq_of_cons_eq (List.tail_eq_of_cons_eq h)).symm (hu _ hk)
  · exact codePoint_append_inj h
  · exact absurd (List.head_eq_of_cons_eq h).symm hd'
  · exact absurd (List.head_eq_of_cons_eq h) hc'
  · exact absurd (List.head_eq_of_cons_eq h) hc'
  · exact List.cons.inj h

/-- Nothing that is written for a character begins with a quote. -/
theorem escape_append_ne {c : Char} {s t : List Char} : escape c ++ s ≠ '"' :: t := by
  intro h
  rcases escape_cases c with ⟨l, hl, hc⟩ | hc | ⟨hc', -, -, hc⟩ <;> rw [hc] at h
  · exact absurd (List.head_eq_of_cons_eq h) (by decide)
  · exact absurd (List.head_eq_of_cons_eq h) (by decide)
  · exact hc' (List.head_eq_of_cons_eq h)

/-! ### Strings -/

/-- Up to the closing quote, the characters can be read back one by one. -/
theorem flatMap_escape_inj {s t : List Char}
    (h : s.flatMap escape ++ ['"'] = t.flatMap escape ++ ['"']) : s = t := by
  induction s generalizing t with
  | nil =>
    cases t with
    | nil => rfl
    | cons d t => exact absurd (by simpa using h.symm) escape_append_ne
  | cons c s ih =>
    cases t with
    | nil => exact absurd (by simpa using h) escape_append_ne
    | cons d t =>
      obtain ⟨rfl, hrest⟩ := escape_append_inj (by simpa using h)
      rw [ih hrest]

/-- Different strings have different quoted forms. -/
theorem quote_injective : Function.Injective quote := by
  intro s t h
  have h : s.toList.flatMap escape ++ ['"'] = t.toList.flatMap escape ++ ['"'] :=
    List.tail_eq_of_cons_eq (String.ofList_injective h)
  exact String.toList_inj.1 (flatMap_escape_inj h)

/-- A line feed and a backslash before an `n` are not mistaken for each other. -/
example : quote "it's\n" = "\"it's\\n\"" ∧ quote "it's\\n" = "\"it's\\\\n\"" := by
  decide +kernel

/-- The characters around the letters and digits that are written for others. -/
theorem isUnprintable_of_mem_frame {d : Char} (hd : d ∈ ['"', '\\', 'u', '\x7b', '\x7d']) :
    isUnprintable d = false := by
  have hall : ['"', '\\', 'u', '\x7b', '\x7d'].all (!isUnprintable ·) = true := by decide +kernel
  simpa using List.all_eq_true.1 hall d hd

theorem isUnprintable_of_mem_escape {c d : Char} (hd : d ∈ escape c) : isUnprintable d = false := by
  have hletters : ∀ a ∈ letters, isUnprintable a.2 = false := by decide +kernel
  have hdigits : ∀ i < 16, isUnprintable (Nat.digitChar i) = false := by decide +kernel
  rcases escape_cases c with ⟨l, hl, hc⟩ | hc | ⟨-, -, hc', hc⟩ <;> rw [hc] at hd
  · rcases List.mem_pair.1 hd with rfl | rfl
    · exact isUnprintable_of_mem_frame (by decide)
    · exact hletters _ hl
  · simp only [codePoint, List.mem_append] at hd
    rcases hd with (hd | hd) | hd
    · exact isUnprintable_of_mem_frame (by grind)
    · obtain ⟨i, hi, rfl⟩ := exists_digitChar hd
      exact hdigits i hi
    · exact isUnprintable_of_mem_frame (by grind)
  · rwa [List.mem_singleton.1 hd]

/-- Every character of a quoted form can be shown by itself. -/
theorem isUnprintable_of_mem_quote {s : String} {d : Char} (hd : d ∈ (quote s).toList) :
    isUnprintable d = false := by
  simp only [quote, String.toList_ofList, List.cons_append, List.mem_cons, List.mem_append,
    List.mem_flatMap, List.not_mem_nil, or_false] at hd
  rcases hd with rfl | ⟨c, -, hd⟩ | rfl
  · exact isUnprintable_of_mem_frame (by decide)
  · exact isUnprintable_of_mem_escape hd
  · exact isUnprintable_of_mem_frame (by decide)

end Quoted

end BulkLookup
