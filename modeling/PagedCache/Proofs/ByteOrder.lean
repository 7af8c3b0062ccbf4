import Mathlib.Data.List.Lex
import Mathlib.Data.String.Basic

/-!
# Text in byte order

Strings are compared character by character, and their encodings byte by byte.  Both
orders are the same: the encoding of a smaller character is smaller, whatever follows.
-/

namespace PagedCache

/-- The bytes of a string. -/
def utf8Bytes (text : String) : List UInt8 :=
  text.toUTF8.data.toList

theorem utf8Bytes_eq_flatMap (text : String) :
    utf8Bytes text = text.toList.flatMap String.utf8EncodeChar := by
  obtain ⟨chars, rfl⟩ := text.exists_eq_ofList
  rw [utf8Bytes, String.toUTF8, String.toByteArray_ofList, String.toList_ofList,
    List.utf8Encode, List.data_toByteArray]

/-! ## Single characters -/

namespace Utf8

theorem ofNat_lt_ofNat_iff {left right : Nat} (hleft : left < 256) (hright : right < 256) :
    UInt8.ofNat left < UInt8.ofNat right ↔ left < right := by
  rw [UInt8.lt_iff_toNat_lt, UInt8.toNat_ofNat_of_lt' hleft, UInt8.toNat_ofNat_of_lt' hright]

theorem ofNat_inj {left right : Nat} (hleft : left < 256) (hright : right < 256) :
    UInt8.ofNat left = UInt8.ofNat right ↔ left = right := by
  rw [← UInt8.toNat_inj, UInt8.toNat_ofNat_of_lt' hleft, UInt8.toNat_ofNat_of_lt' hright]

theorem encodeChar_append_lt {left right : Char} (hlt : left < right)
    (leftRest rightRest : List UInt8) :
    String.utf8EncodeChar left ++ leftRest < String.utf8EncodeChar right ++ rightRest := by
  have hcode : left.val.toNat < right.val.toNat := UInt32.lt_iff_toNat_lt.mp hlt
  have hbound : right.val.toNat < 0x110000 := by
    obtain hlow | hhigh := right.valid
    · exact hlow.trans (by decide)
    · exact hhigh.2
  -- each byte behind the first one holds six bits
  have htwo (code : Nat) : code / 4096 = code / 64 / 64 := by omega
  have hthree (code : Nat) : code / 262144 = code / 64 / 64 / 64 := by omega
  simp only [String.utf8EncodeChar, htwo, hthree]
  split_ifs <;> try omega
  all_goals
    simp only [List.cons_append, List.nil_append, List.cons_lt_cons_iff]
    simp (disch := omega) only [ofNat_lt_ofNat_iff, ofNat_inj]
    omega

theorem encodeChar_ne_nil (char : Char) : String.utf8EncodeChar char ≠ [] := by
  simp only [String.utf8EncodeChar]
  split_ifs <;> exact List.cons_ne_nil _ _

end Utf8

/-! ## Strings -/

theorem flatMap_encodeChar_lt {left right : List Char} (hlt : left < right) :
    left.flatMap String.utf8EncodeChar < right.flatMap String.utf8EncodeChar := by
  induction hlt with
  | @nil char rest =>
      obtain ⟨byte, bytes, hbytes⟩ := List.exists_cons_of_ne_nil (Utf8.encodeChar_ne_nil char)
      rw [List.flatMap_cons, hbytes]
      exact List.nil_lt_cons _ _
  | rel hchar => exact Utf8.encodeChar_append_lt hchar _ _
  | cons hrest ih => exact List.append_left_lt ih

/-- **Strings are in byte order.** -/
theorem utf8Bytes_lt_iff {left right : String} :
    utf8Bytes left < utf8Bytes right ↔ left < right := by
  have hmono : ∀ {left right : String}, left < right → utf8Bytes left < utf8Bytes right := by
    intro left right hlt
    rw [utf8Bytes_eq_flatMap, utf8Bytes_eq_flatMap]
    exact flatMap_encodeChar_lt (String.lt_iff_toList_lt.mp hlt)
  refine ⟨fun hbytes => ?_, hmono⟩
  rcases lt_trichotomy left right with hlt | rfl | hgt
  · exact hlt
  · exact absurd hbytes (List.lt_irrefl _)
  · exact absurd hbytes (List.lt_asymm (hmono hgt))

end PagedCache
