import PagedCache.Json.Number
import PagedCache.Proofs.Decimal.Digits
import PagedCache.Proofs.Decimal.Shortest

/-!
# Number texts

The text of a number is a literal, and the literal denotes no other number.
-/

namespace PagedCache.Json

open Decimal

namespace Literal

/-! ## Spelling literals -/

/-- Digits, at least one of them. -/
def IsRun (chars : List Char) : Prop :=
  chars ≠ [] ∧ ∀ char ∈ chars, isDigit char = true

/-- A literal that a text can spell. -/
structure Spellable (literal : Literal) : Prop where
  whole : IsRun literal.whole
  leading : literal.whole.head? = some '0' → literal.whole.length = 1
  fraction : ∀ digits ∈ literal.fraction, IsRun digits
  exponent : ∀ exponent ∈ literal.exponent, IsRun exponent.2

def fractionText : Option (List Char) → List Char
  | none => []
  | some digits => '.' :: digits

def exponentText : Option (Bool × List Char) → List Char
  | none => []
  | some (negative, digits) => 'e' :: (if negative then '-' else '+') :: digits

def unsignedText (literal : Literal) : List Char :=
  literal.whole ++ (fractionText literal.fraction ++ exponentText literal.exponent)

/-- A text of the literal, with a sign in every exponent. -/
def spell (literal : Literal) : List Char :=
  if literal.negative then '-' :: literal.unsignedText else literal.unsignedText

theorem takeWhile_run {run rest : List Char} (hrun : IsRun run)
    (hrest : ∀ char ∈ rest.head?, isDigit char = false) :
    (run ++ rest).takeWhile isDigit = run ∧ (run ++ rest).dropWhile isDigit = rest := by
  rw [List.takeWhile_append_of_pos hrun.2, List.dropWhile_append_of_pos hrun.2]
  cases rest with
  | nil => simp
  | cons char rest =>
      have hchar : isDigit char = false := hrest char rfl
      simp [hchar]

theorem splitSign_of_isDigit {char : Char} (rest : List Char) (hchar : isDigit char = true) :
    splitSign (char :: rest) = (false, char :: rest) := by
  unfold splitSign
  split
  · rename_i hminus
    cases hminus
    exact absurd hchar (by decide)
  · rfl

theorem splitSign_spell {literal : Literal} (hspell : literal.Spellable) :
    splitSign literal.spell = (literal.negative, literal.unsignedText) := by
  unfold spell
  cases hnegative : literal.negative with
  | true => rfl
  | false =>
      obtain ⟨hnonempty, hdigits⟩ := hspell.whole
      rw [unsignedText]
      cases hwhole : literal.whole with
      | nil => exact absurd hwhole hnonempty
      | cons char rest =>
          have hchar : isDigit char = true := hdigits char (by simp [hwhole])
          exact splitSign_of_isDigit _ hchar

theorem readExponent?_exponentText {exponent : Option (Bool × List Char)}
    (hexponent : ∀ signed ∈ exponent, IsRun signed.2) :
    readExponent? (exponentText exponent) = some exponent := by
  cases exponent with
  | none => rfl
  | some signed =>
      obtain ⟨negative, digits⟩ := signed
      obtain ⟨hnonempty, hdigits⟩ := hexponent _ rfl
      have hall : digits.all isDigit = true := List.all_eq_true.mpr hdigits
      cases negative <;>
        simp [exponentText, readExponent?, splitExponentSign, splitSign, hall, hnonempty]

theorem head?_exponentText (exponent : Option (Bool × List Char)) :
    ∀ char ∈ (exponentText exponent).head?, isDigit char = false := by
  cases exponent with
  | none => simp [exponentText]
  | some signed =>
      intro char hchar
      cases hchar
      rfl

theorem splitFraction_exponentText (exponent : Option (Bool × List Char)) :
    splitFraction (exponentText exponent) = some (none, exponentText exponent) := by
  cases exponent <;> rfl

theorem splitFraction_fractionText {literal : Literal} (hspell : literal.Spellable) :
    splitFraction (fractionText literal.fraction ++ exponentText literal.exponent) =
      some (literal.fraction, exponentText literal.exponent) := by
  cases hfraction : literal.fraction with
  | none => exact splitFraction_exponentText _
  | some digits =>
      have hrun : IsRun digits := hspell.fraction digits hfraction
      obtain ⟨htake, hdrop⟩ :=
        takeWhile_run hrun (head?_exponentText literal.exponent)
      have hnonempty : digits.isEmpty = false := List.isEmpty_eq_false_iff.mpr hrun.1
      simp only [fractionText, List.cons_append, splitFraction, htake, hdrop, hnonempty]
      rfl

theorem head?_fractionText (literal : Literal) :
    ∀ char ∈ (fractionText literal.fraction ++ exponentText literal.exponent).head?,
      isDigit char = false := by
  cases literal.fraction with
  | none => exact head?_exponentText _
  | some digits =>
      intro char hchar
      cases hchar
      rfl

/-- **A literal is read back from its text.** -/
theorem ofChars?_spell {literal : Literal} (hspell : literal.Spellable) :
    ofChars? literal.spell = some literal := by
  obtain ⟨htake, hdrop⟩ := takeWhile_run hspell.whole (head?_fractionText literal)
  have hstart : ¬(literal.whole.isEmpty ||
      (literal.whole.head? == some '0' && literal.whole.length != 1)) = true := by
    have hnonempty := hspell.whole.1
    have hleading := hspell.leading
    simpa using ⟨hnonempty, hleading⟩
  simp only [ofChars?, splitSign_spell hspell, unsignedText, htake, hdrop, if_neg hstart,
    splitFraction_fractionText hspell, readExponent?_exponentText hspell.exponent,
    Option.bind_eq_bind, Option.bind_some]

theorem spell_injective {left right : Literal} (hleft : left.Spellable)
    (hright : right.Spellable) (hspell : left.spell = right.spell) : left = right := by
  rw [← Option.some_inj, ← ofChars?_spell hleft, ← ofChars?_spell hright, hspell]

/-! ## Values -/

/-- The absolute value of the literal. -/
def decimal (literal : Literal) : Scientific where
  coefficient := ofDigits (literal.whole ++ literal.fraction.getD [])
  exponent := literal.exponentValue - (literal.fraction.getD []).length

/-- A literal that denotes a double for its form. -/
def HasPlaces (literal : Literal) : Prop :=
  literal.fraction.isSome ∨ literal.exponent.isSome

/-- What a literal says of the number that it is the text of. -/
def Denotes (literal : Literal) : Number → Prop
  | .integer value =>
    ¬literal.HasPlaces ∧ literal.negative = decide (value < 0) ∧
      ofDigits literal.whole = value.natAbs
  | .binary64 bits =>
    literal.HasPlaces ∧ literal.negative = decide (Binary64.signWeight ≤ bits.toNat) ∧
      literal.decimal.value = (shortest (bits.toNat % Binary64.signWeight)).value

/-- **A literal is the text of one number only.** -/
theorem Denotes.unique {literal : Literal} {left right : Number}
    (hleft : literal.Denotes left) (hright : literal.Denotes right) : left = right := by
  cases left with
  | integer value =>
      cases right with
      | binary64 bits => exact absurd hright.1 hleft.1
      | integer other =>
          obtain ⟨-, hsign, habs⟩ := hleft
          obtain ⟨-, hotherSign, hotherAbs⟩ := hright
          rw [hsign, decide_eq_decide] at hotherSign
          rw [habs] at hotherAbs
          congr 1
          omega
  | binary64 bits =>
      cases right with
      | integer value => exact absurd hleft.1 hright.1
      | binary64 other =>
          obtain ⟨-, hsign, hvalue⟩ := hleft
          obtain ⟨-, hotherSign, hotherValue⟩ := hright
          rw [hsign, decide_eq_decide] at hotherSign
          rw [hvalue] at hotherValue
          have hmagnitude := magnitude_eq_of_value_eq
            (Nat.mod_lt _ (Nat.two_pow_pos 63)) (Nat.mod_lt _ (Nat.two_pow_pos 63)) hotherValue
          have hbits := bits.toNat_lt
          have hotherBits := other.toNat_lt
          have hweight : Binary64.signWeight = 2 ^ 63 := rfl
          rw [hweight] at hmagnitude hotherSign
          congr 1
          apply UInt64.toNat.inj
          omega

end Literal

/-! ## Texts of doubles -/

namespace DoubleLayout

open Literal

theorem isRun_digits (value : Nat) : IsRun (digits value) :=
  ⟨digits_ne_nil value, fun _ => isDigit_of_mem_digits⟩

theorem isRun_append_digits {left right : List Char} (hleft : IsRun left)
    (hright : ∀ char ∈ right, isDigit char = true) : IsRun (left ++ right) := by
  refine ⟨List.append_ne_nil_of_left_ne_nil hleft.1 right, fun char hchar => ?_⟩
  obtain hchar | hchar := List.mem_append.mp hchar
  · exact hleft.2 char hchar
  · exact hright char hchar

theorem isRun_digits_append {left right : List Char}
    (hleft : ∀ char ∈ left, isDigit char = true) (hright : IsRun right) :
    IsRun (left ++ right) := by
  refine ⟨List.append_ne_nil_of_right_ne_nil left hright.1, fun char hchar => ?_⟩
  obtain hchar | hchar := List.mem_append.mp hchar
  · exact hleft char hchar
  · exact hright.2 char hchar

theorem isDigit_of_mem_zeros {count : Nat} {char : Char}
    (hchar : char ∈ List.replicate count '0') : isDigit char = true := by
  rw [List.eq_of_mem_replicate hchar]
  rfl

/-- A text of a positive decimal as a literal: it is a double for its form and has the
value of the decimal. -/
def Spells (text : List Char) (value : ℚ) : Prop :=
  ∃ literal : Literal, literal.Spellable ∧ literal.negative = false ∧
    literal.unsignedText = text ∧ literal.HasPlaces ∧ literal.decimal.value = value

/-- A text without an exponent. -/
theorem spells_places {whole fraction : List Char} (hwhole : IsRun whole)
    (hleading : whole.head? = some '0' → whole.length = 1) (hfraction : IsRun fraction) :
    Spells (whole ++ '.' :: fraction)
      (Scientific.value ⟨ofDigits (whole ++ fraction), -fraction.length⟩) := by
  refine ⟨⟨false, whole, some fraction, none⟩, ⟨hwhole, hleading, ?_, ?_⟩, rfl, ?_,
    .inl rfl, ?_⟩
  · rintro digits ⟨⟩
    exact hfraction
  · simp
  · simp [unsignedText, fractionText, exponentText]
  · simp only [Literal.decimal, exponentValue, Option.getD_some, zero_sub]

theorem isRun_zero : IsRun ['0'] :=
  ⟨by simp, by simp [isDigit]⟩

theorem spells_zero : Spells ['0', '.', '0'] 0 := by
  have hspells := spells_places isRun_zero (fun _ => rfl) isRun_zero
  have hvalue : Scientific.value ⟨ofDigits (['0'] ++ ['0']), -['0'].length⟩ = 0 :=
    Scientific.value_eq_zero_iff.mpr rfl
  rw [hvalue] at hspells
  exact hspells

/-- All digits stand behind the point. -/
theorem spells_behind (coefficient zeros : Nat) :
    Spells (['0'] ++ '.' :: (List.replicate zeros '0' ++ digits coefficient))
      (Scientific.value ⟨coefficient, -(zeros + width coefficient)⟩) := by
  have hfraction : IsRun (List.replicate zeros '0' ++ digits coefficient) :=
    isRun_digits_append (fun _ => isDigit_of_mem_zeros) (isRun_digits coefficient)
  have hdigits : ofDigits (['0'] ++ (List.replicate zeros '0' ++ digits coefficient)) =
      coefficient := by
    have hfirst : ofDigits ['0'] = 0 := rfl
    rw [ofDigits_append, ofDigits_append, hfirst, ofDigits_replicate_zero, ofDigits_digits]
    simp
  have hlength : ((List.replicate zeros '0' ++ digits coefficient).length : Int) =
      zeros + width coefficient := by
    rw [List.length_append, List.length_replicate, Nat.cast_add]
    rfl
  have hspells := spells_places isRun_zero (fun _ => rfl) hfraction
  rwa [hdigits, hlength] at hspells

/-- All digits stand before the point. -/
theorem spells_before {coefficient : Nat} (hcoefficient : coefficient ≠ 0) (zeros : Nat) :
    Spells (digits coefficient ++ List.replicate zeros '0' ++ '.' :: ['0'])
      (Scientific.value ⟨coefficient, zeros⟩) := by
  have hrun := isRun_digits coefficient
  have hwhole : IsRun (digits coefficient ++ List.replicate zeros '0') :=
    isRun_append_digits hrun fun _ => isDigit_of_mem_zeros
  have hleading : (digits coefficient ++ List.replicate zeros '0').head? = some '0' →
      (digits coefficient ++ List.replicate zeros '0').length = 1 := by
    rw [List.head?_append_of_ne_nil _ hrun.1]
    exact fun hfirst => absurd hfirst (head?_digits hcoefficient)
  have hdigits : ofDigits (digits coefficient ++ List.replicate zeros '0' ++ ['0']) =
      coefficient * 10 ^ (zeros + 1) := by
    rw [List.append_assoc, ← List.replicate_succ', ofDigits_append,
      ofDigits_replicate_zero, List.length_replicate, ofDigits_digits, add_zero]
  have hexponent : -(['0'].length : Int) + (zeros + 1 : Nat) = zeros := by
    rw [List.length_singleton]
    omega
  have hspells := spells_places hwhole hleading isRun_zero
  rwa [hdigits, Scientific.value_mul_pow, hexponent] at hspells

/-- The point stands between two digits. -/
theorem spells_between {coefficient places : Nat} (hcoefficient : coefficient ≠ 0)
    (hplaces : 0 < places) (hwidth : places < width coefficient) :
    Spells ((digits coefficient).take places ++ '.' :: (digits coefficient).drop places)
      (Scientific.value ⟨coefficient, places - width coefficient⟩) := by
  have hrun := isRun_digits coefficient
  have hsplit := List.take_append_drop places (digits coefficient)
  have hwhole : IsRun ((digits coefficient).take places) := by
    refine ⟨?_, fun char hchar => hrun.2 char (List.mem_of_mem_take hchar)⟩
    rw [Ne, List.take_eq_nil_iff, not_or]
    exact ⟨hplaces.ne', hrun.1⟩
  have hfraction : IsRun ((digits coefficient).drop places) := by
    refine ⟨?_, fun char hchar => hrun.2 char (List.mem_of_mem_drop hchar)⟩
    rw [Ne, List.drop_eq_nil_iff, not_le]
    exact hwidth
  have hleading : ((digits coefficient).take places).head? = some '0' →
      ((digits coefficient).take places).length = 1 := by
    rw [← List.head?_append_of_ne_nil _ hwhole.1, hsplit]
    exact fun hfirst => absurd hfirst (head?_digits hcoefficient)
  have hexponent : -(((digits coefficient).drop places).length : Int) =
      places - width coefficient := by
    have hlength : (digits coefficient).length = width coefficient := rfl
    rw [List.length_drop, hlength]
    omega
  have hspells := spells_places hwhole hleading hfraction
  rwa [hsplit, ofDigits_digits, hexponent] at hspells

theorem spells_positional {coefficient : Nat} (hcoefficient : coefficient ≠ 0)
    (places : Int) :
    Spells (positional (digits coefficient) places)
      (Scientific.value ⟨coefficient, places - width coefficient⟩) := by
  have hlength : (digits coefficient).length = width coefficient := rfl
  simp only [positional, hlength]
  split
  · have hexponent : -(((-places).toNat : Int) + width coefficient) =
        places - width coefficient := by omega
    rw [← hexponent]
    exact spells_behind coefficient (-places).toNat
  · by_cases hwidth : width coefficient ≤ places.toNat
    · have hexponent : ((places.toNat - width coefficient : Nat) : Int) =
          places - width coefficient := by omega
      rw [List.take_of_length_le hwidth, List.drop_eq_nil_of_le hwidth, ← hexponent]
      exact spells_before hcoefficient _
    · have hexponent : (places.toNat : Int) - width coefficient =
          places - width coefficient := by omega
      have hspells := spells_between hcoefficient (by omega) (not_le.mp hwidth)
      have hfraction : ((digits coefficient).drop places.toNat).isEmpty = false := by
        rw [List.isEmpty_eq_false_iff, Ne, List.drop_eq_nil_iff]
        exact hwidth
      rw [Nat.sub_eq_zero_of_le (not_le.mp hwidth).le, List.replicate_zero, List.append_nil,
        hfraction, ← hexponent]
      exact hspells

/-- The parts of a signed exponent. -/
def signedParts (exponent : Int) : Bool × List Char :=
  (decide (exponent < 0), digits exponent.natAbs)

theorem exponentText_signedParts (exponent : Int) :
    exponentText (some (signedParts exponent)) =
      'e' :: doubleLayout.signedExponent exponent := by
  by_cases hnegative : exponent < 0 <;>
    simp [signedParts, exponentText, signedExponent, doubleLayout, hnegative]

theorem exponentValue_signedParts (whole : List Char) (fraction : Option (List Char))
    (exponent : Int) :
    exponentValue ⟨false, whole, fraction, some (signedParts exponent)⟩ = exponent := by
  by_cases hnegative : exponent < 0
  · simp only [signedParts, exponentValue, hnegative, decide_true, ofDigits_digits]
    omega
  · simp only [signedParts, exponentValue, hnegative, decide_false, ofDigits_digits]
    omega

theorem isRun_of_mem_signedParts {exponent : Int} :
    ∀ parts ∈ some (signedParts exponent), IsRun parts.2 := by
  rintro parts ⟨⟩
  exact isRun_digits _

/-- A text with an exponent. -/
theorem spells_exponential (coefficient : Nat) (exponent : Int) :
    Spells (mantissa (digits coefficient) ++ 'e' :: doubleLayout.signedExponent exponent)
      (Scientific.value ⟨coefficient, exponent + 1 - width coefficient⟩) := by
  have hrun := isRun_digits coefficient
  have hvalue := ofDigits_digits coefficient
  have hlength : (digits coefficient).length = width coefficient := rfl
  rw [← exponentText_signedParts]
  rcases hdigits : digits coefficient with _ | ⟨first, _ | ⟨second, rest⟩⟩
  · exact absurd hdigits hrun.1
  · -- one digit
    rw [hdigits] at hrun hvalue hlength
    refine ⟨⟨false, [first], none, some (signedParts exponent)⟩,
      ⟨hrun, fun _ => rfl, by simp, isRun_of_mem_signedParts⟩, rfl, rfl, .inr rfl, ?_⟩
    have hexponent : exponent + 1 - width coefficient = exponent := by
      rw [← hlength, List.length_singleton]
      omega
    simp only [Literal.decimal, exponentValue_signedParts, Option.getD_none, List.append_nil,
      hvalue, hexponent, List.length_nil, Nat.cast_zero, sub_zero]
  · -- the point stands behind the first digit
    rw [hdigits] at hrun hvalue hlength
    have hfirst : IsRun [first] := by
      refine ⟨by simp, fun char hchar => hrun.2 char ?_⟩
      rw [List.mem_singleton.mp hchar]
      exact List.mem_cons_self
    have hfraction : ∀ digits ∈ some (second :: rest), IsRun digits := by
      rintro digits ⟨⟩
      exact ⟨by simp, fun char hchar => hrun.2 char (List.mem_cons_of_mem first hchar)⟩
    refine ⟨⟨false, [first], some (second :: rest), some (signedParts exponent)⟩,
      ⟨hfirst, fun _ => rfl, hfraction, isRun_of_mem_signedParts⟩, rfl, rfl, .inl rfl, ?_⟩
    have hexponent : exponent - ((second :: rest).length : Int) =
        exponent + 1 - width coefficient := by
      simp only [← hlength, List.length_cons]
      omega
    simp only [Literal.decimal, exponentValue_signedParts, Option.getD_some,
      List.singleton_append, hvalue, hexponent]

/-- **The text of a positive decimal has its value.** -/
theorem spells_write {decimal : Scientific} (hdecimal : decimal.coefficient ≠ 0) :
    Spells (doubleLayout.write decimal) decimal.value := by
  have hplaces := spells_positional hdecimal (decimal.exponent + width decimal.coefficient)
  have hexponential := spells_exponential decimal.coefficient
    (decimal.exponent + width decimal.coefficient - 1)
  rw [sub_add_cancel, add_sub_cancel_right] at hexponential
  rw [add_sub_cancel_right] at hplaces
  have hwidth : (digits decimal.coefficient).length = width decimal.coefficient := rfl
  simp only [write, hwidth]
  split
  · rw [sub_add_cancel]
    exact hplaces
  · exact hexponential

end DoubleLayout

/-! ## Texts of numbers -/

namespace Number

open Literal

/-- **The text of a number is a literal that denotes it.** -/
theorem exists_literal (number : Number) :
    ∃ literal : Literal, literal.Spellable ∧ literal.spell = number.text ∧
      literal.Denotes number := by
  cases number with
  | integer value =>
      refine ⟨⟨decide (value < 0), digits value.natAbs, none, none⟩,
        ⟨DoubleLayout.isRun_digits _, ?_, by simp, by simp⟩, ?_, ?_, rfl, ?_⟩
      · intro hzero
        by_cases hvalue : value.natAbs = 0
        · rw [hvalue]
          rfl
        · exact absurd hzero (head?_digits hvalue)
      · by_cases hnegative : value < 0 <;>
          simp [spell, unsignedText, fractionText, exponentText, text, integerText, hnegative]
      · simp [HasPlaces]
      · exact ofDigits_digits _
  | binary64 bits =>
      let magnitude := bits.toNat % Binary64.signWeight
      have hbound : magnitude < Binary64.signWeight := Nat.mod_lt _ (Nat.two_pow_pos 63)
      have hunsigned : DoubleLayout.Spells
          (if magnitude = 0 then ['0', '.', '0']
            else doubleLayout.write (shortest magnitude)) (shortest magnitude).value := by
        split
        · rename_i hmagnitude
          rw [hmagnitude, value_shortest_zero]
          exact DoubleLayout.spells_zero
        · rename_i hmagnitude
          exact DoubleLayout.spells_write (coefficient_shortest_ne_zero hmagnitude hbound)
      obtain ⟨literal, hspell, hpositive, htext, hplaces, hvalue⟩ := hunsigned
      refine ⟨{ literal with negative := decide (Binary64.signWeight ≤ bits.toNat) },
        ⟨hspell.whole, hspell.leading, hspell.fraction, hspell.exponent⟩, ?_, hplaces, rfl,
        hvalue⟩
      change (if decide (Binary64.signWeight ≤ bits.toNat) then '-' :: literal.unsignedText
        else literal.unsignedText) = _
      rw [htext]
      rfl

/-- **Distinct numbers have distinct texts.** -/
theorem text_injective : Function.Injective text := by
  intro left right htext
  obtain ⟨leftLiteral, hleft, hleftText, hleftDenotes⟩ := exists_literal left
  obtain ⟨rightLiteral, hright, hrightText, hrightDenotes⟩ := exists_literal right
  have hliteral : leftLiteral = rightLiteral :=
    spell_injective hleft hright (by rw [hleftText, hrightText, htext])
  exact hleftDenotes.unique (hliteral ▸ hrightDenotes)

end Number

end PagedCache.Json
