import PagedCache.Decimal.Digits
import Mathlib.Data.List.Basic
import Mathlib.Tactic.Ring

/-!
# Digits and what they denote

Reading digits gives back the number that they were written for.
-/

namespace PagedCache.Decimal

theorem isDigit_iff {char : Char} :
    isDigit char = true ↔ '0'.toNat ≤ char.toNat ∧ char.toNat ≤ '9'.toNat := by
  simp only [isDigit, Bool.and_eq_true, decide_eq_true_eq]
  rfl

theorem digits_ne_nil (value : Nat) : digits value ≠ [] :=
  Nat.toDigits_ne_nil

theorem isDigit_of_mem_digits {value : Nat} {char : Char} (hchar : char ∈ digits value) :
    isDigit char = true := by
  have hdigit := Nat.isDigit_of_mem_toDigits (by decide) (by decide) hchar
  rw [Char.isDigit, Bool.and_eq_true, decide_eq_true_eq, decide_eq_true_eq] at hdigit
  exact isDigit_iff.mpr hdigit

theorem ofDigits_digits (value : Nat) : ofDigits (digits value) = value :=
  Nat.ofDigitChars_toDigits (by decide) (by decide)

/-- Digits in front count by their place. -/
theorem ofDigits_append (front back : List Char) :
    ofDigits (front ++ back) = ofDigits front * 10 ^ back.length + ofDigits back := by
  have hfold : ∀ start, back.foldl (fun value char => 10 * value + digitValue char) start =
      start * 10 ^ back.length + ofDigits back := by
    induction back with
    | nil => simp [ofDigits]
    | cons char rest ih =>
        intro start
        rw [ofDigits, List.foldl_cons, List.foldl_cons, ih, ih, List.length_cons, pow_succ]
        ring
  rw [ofDigits, List.foldl_append, hfold]
  rfl

theorem ofDigits_replicate_zero (count : Nat) : ofDigits (List.replicate count '0') = 0 := by
  induction count with
  | zero => rfl
  | succ count ih =>
      have hzero : ofDigits ['0'] = 0 := rfl
      rw [List.replicate_succ, ← List.singleton_append, ofDigits_append, ih, hzero, zero_mul]

/-- A number is written without a superfluous zero in front. -/
theorem head?_digits {value : Nat} (hvalue : value ≠ 0) : (digits value).head? ≠ some '0' := by
  induction value using Nat.strongRecOn with
  | ind value ih =>
      rw [digits, Nat.toDigits_eq_if (by decide)]
      split
      · simpa using hvalue
      · have hquotient : value / 10 ≠ 0 := by omega
        rw [List.head?_append_of_ne_nil _ Nat.toDigits_ne_nil]
        exact ih (value / 10) (by omega) hquotient

end PagedCache.Decimal
