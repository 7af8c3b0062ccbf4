import PagedCache.Json.Printer
import PagedCache.Json.Token
import PagedCache.Proofs.Json.NumberText

/-!
# Tokens of a compact text

The compact text of a value is cut into tokens that stand for the value.
-/

namespace PagedCache.Json

open Decimal Token

/-! ## Strings -/

namespace Quoted

/-- The three ways in which a character is written. -/
inductive Escaped (char : Char) : Prop where
  | mark (mark : Char) (hchar : escaped? mark = some char) (hmark : mark ≠ 'u')
      (hescape : escape char = ['\\', mark])
  | hexadecimal (hcontrol : char.toNat < 0x20)
      (hescape : escape char = ['\\', 'u', '0', '0', hexDigit (char.toNat / 16),
        hexDigit (char.toNat % 16)])
  | plain (hquote : char ≠ '"') (hbackslash : char ≠ '\\') (hcontrol : ¬char.toNat < 0x20)
      (hescape : escape char = [char])

theorem escaped (char : Char) : Escaped char := by
  by_cases hmarked : char ∈ ['"', '\\', '\x08', '\x0c', '\n', '\r', '\t']
  · simp only [List.mem_cons, List.not_mem_nil, or_false] at hmarked
    rcases hmarked with rfl | rfl | rfl | rfl | rfl | rfl | rfl <;>
      exact .mark _ (by rfl) (by decide) rfl
  · simp only [List.mem_cons, List.not_mem_nil, or_false, not_or] at hmarked
    by_cases hcontrol : char.toNat < 0x20
    · refine .hexadecimal hcontrol ?_
      unfold escape
      split <;> simp_all
    · refine .plain hmarked.1 hmarked.2.1 hcontrol ?_
      unfold escape
      split <;> simp_all

theorem hexValue?_hexDigit : ∀ value < 16, hexValue? (hexDigit value) = some value := by
  decide
/-- A unit below the surrogates is a character, whatever comes after it. -/
theorem charsOfPieces_unit {value : Nat} (hvalue : value < 0xd800) (rest : List Piece) :
    charsOfPieces (.unit value :: rest) =
      (charsOfPieces rest).map (Char.ofNat value :: ·) := by
  have hhigh : (0xd800 ≤ value && value < 0xdc00) = false := by simp [hvalue]
  have hlow : (0xdc00 ≤ value && value < 0xe000) = false := by
    simp
    omega
  have hany : (0xd800 ≤ value && value < 0xe000) = false := by simp [hvalue]
  rcases rest with _ | ⟨_ | low, rest⟩ <;>
    simp only [charsOfPieces, hhigh, hlow, hany, Bool.false_eq_true, if_false]

/-- A scanner sees one piece where a character was escaped, and the piece stands for the
character. -/
theorem exists_piece (char : Char) :
    ∃ piece, (∀ reversed rest, scanString reversed (escape char ++ rest) =
        scanString (piece :: reversed) rest) ∧
      ∀ rest, charsOfPieces (piece :: rest) = (charsOfPieces rest).map (char :: ·) := by
  cases escaped char with
  | mark mark hchar hmark hescape =>
      refine ⟨.char char, fun reversed rest => ?_, fun _ => rfl⟩
      rw [hescape, List.cons_append, List.singleton_append, scanString]
      · rw [hchar]
      · rintro _ _ _ _ _ rfl
        exact fun _ => hmark rfl
  | hexadecimal hcontrol hescape => 
      refine ⟨.unit char.toNat, fun reversed rest => ?_, fun rest => ?_⟩
      · have hunit : unit? '0' '0' (hexDigit (char.toNat / 16)) (hexDigit (char.toNat % 16)) =
            some char.toNat := by
          have hhigh := hexValue?_hexDigit (char.toNat / 16) (by omega)
          have hlow := hexValue?_hexDigit (char.toNat % 16) (by omega)
          have hzero : hexValue? '0' = some 0 := rfl
          simp only [unit?, hhigh, hlow, hzero, Option.bind_eq_bind, Option.bind_some,
            Option.some.injEq]
          omega
        simp only [hescape, List.cons_append, List.nil_append, scanString, hunit]
      · rw [charsOfPieces_unit (by omega), Char.ofNat_toNat]
  | plain hquote hbackslash hcontrol hescape =>
      refine ⟨.char char, fun reversed rest => ?_, fun _ => rfl⟩
      rw [hescape, List.singleton_append, scanString]
      · rw [if_neg hcontrol]
      all_goals simp_all
/-- **A string is read back from its text.** -/
theorem exists_pieces (chars : List Char) (reversed : List Piece) (rest : List Char) :
    ∃ pieces, scanString reversed (chars.flatMap escape ++ '"' :: rest) =
        some (reversed.reverse ++ pieces, rest) ∧ charsOfPieces pieces = some chars := by
  induction chars generalizing reversed with
  | nil => exact ⟨[], by simp [scanString], rfl⟩
  | cons char chars ih =>
      obtain ⟨piece, hscan, hchars⟩ := exists_piece char
      obtain ⟨pieces, hscanRest, hrest⟩ := ih (piece :: reversed)
      refine ⟨piece :: pieces, ?_, ?_⟩
      · rw [List.flatMap_cons, List.append_assoc, hscan, hscanRest]
        simp
      · rw [hchars, hrest, Option.map_some]

end Quoted

/-! ## Words -/

namespace Number

/-- The literal that the text of the number is. -/
def literal (number : Number) : Literal :=
  (Literal.ofChars? number.text).getD ⟨false, [], none, none⟩

theorem literal_spec (number : Number) :
    number.literal.Spellable ∧ number.literal.spell = number.text := by
  obtain ⟨literal, hspell, htext, -⟩ := exists_literal number
  have hliteral : number.literal = literal := by
    rw [Number.literal, ← htext, Literal.ofChars?_spell hspell, Option.getD_some]
  rw [hliteral]
  exact ⟨hspell, htext⟩

theorem literal_injective : Function.Injective literal := by
  intro left right hliteral
  apply text_injective
  rw [← (literal_spec left).2, ← (literal_spec right).2, hliteral]

end Number

namespace Literal

/-- The characters that end a word. -/
def delimiters : List Char :=
  [' ', '\n', '\t', '\r', '"', '{', '}', '[', ']', ':', ',']

theorem inWord_of_not_mem {char : Char} (hchar : char ∉ delimiters) : inWord char = true := by
  simp only [delimiters, List.mem_cons, List.not_mem_nil, or_false, not_or] at hchar
  have hnone : ofChar? char = none := by
    unfold ofChar?
    split <;> simp_all
  simp [inWord, isBlank, hnone, hchar]

theorem inWord_of_isDigit {char : Char} (hchar : isDigit char = true) :
    inWord char = true := by
  have hdelimiters : delimiters.all (fun delimiter => !isDigit delimiter) = true := by decide
  apply inWord_of_not_mem
  intro hmem
  have hother := List.all_eq_true.mp hdelimiters char hmem
  rw [hchar] at hother
  cases hother

theorem inWord_of_mem_spell {literal : Literal} (hspell : literal.Spellable) {char : Char}
    (hchar : char ∈ literal.spell) : inWord char = true := by
  have hunsigned : ∀ char ∈ literal.unsignedText, inWord char = true := by
    intro char hchar
    simp only [unsignedText, List.mem_append] at hchar
    rcases hchar with hwhole | hfraction | hexponent
    · exact inWord_of_isDigit (hspell.whole.2 char hwhole)
    · cases hdigits : literal.fraction with
      | none => simp [hdigits, fractionText] at hfraction
      | some digits =>
          rw [hdigits, fractionText, List.mem_cons] at hfraction
          rcases hfraction with rfl | hdigit
          · decide
          · exact inWord_of_isDigit ((hspell.fraction digits hdigits).2 char hdigit)
    · cases hsigned : literal.exponent with
      | none => simp [hsigned, exponentText] at hexponent
      | some signed =>
          obtain ⟨negative, digits⟩ := signed
          rw [hsigned, exponentText, List.mem_cons, List.mem_cons] at hexponent
          rcases hexponent with rfl | rfl | hdigit
          · decide
          · cases negative <;> decide
          · exact inWord_of_isDigit ((hspell.exponent _ hsigned).2 char hdigit)
  unfold spell at hchar
  split at hchar
  · obtain rfl | hrest := List.mem_cons.mp hchar
    · decide
    · exact hunsigned char hrest
  · exact hunsigned char hchar

/-- A literal starts with a digit or a minus sign. -/
theorem exists_spell_eq_cons {literal : Literal} (hspell : literal.Spellable) :
    ∃ char rest, literal.spell = char :: rest ∧ (isDigit char = true ∨ char = '-') := by
  unfold spell
  split
  · exact ⟨_, _, rfl, .inr rfl⟩
  · obtain ⟨hnonempty, hdigits⟩ := hspell.whole
    rw [unsignedText]
    cases hwhole : literal.whole with
    | nil => exact absurd hwhole hnonempty
    | cons char rest =>
        exact ⟨char, _, rfl, .inl (hdigits char (by simp [hwhole]))⟩

theorem ofWord?_spell {literal : Literal} (hspell : literal.Spellable) :
    ofWord? literal.spell = some (.number literal) := by
  obtain ⟨char, rest, htext, hchar⟩ := exists_spell_eq_cons hspell
  have hread := ofChars?_spell hspell
  rw [htext] at hread ⊢
  unfold ofWord?
  split
  case h_4 => rw [hread, Option.map_some]
  -- the names start with a letter
  all_goals
    rename_i hword
    cases hword
    exact absurd hchar (by decide)

end Literal

/-! ## Lexing -/

namespace Token

/-- The text cannot continue a word. -/
def EndsWord (text : List Char) : Prop :=
  ∀ char ∈ text.head?, inWord char = false

theorem lex_nil : lex [] = some [] := by
  rw [lex]

theorem lex_cons_of_ofChar? {char : Char} {token : Token} (hchar : ofChar? char = some token)
    (rest : List Char) : lex (char :: rest) = (lex rest).map (token :: ·) := by
  have hdelimiter : isBlank char = false ∧ char ≠ '"' := by
    unfold ofChar? at hchar
    split at hchar <;> first | decide | cases hchar
  rw [lex]
  simp only [hdelimiter, hchar]
  rfl

theorem lex_comma (rest : List Char) : lex (',' :: rest) = (lex rest).map (.comma :: ·) :=
  lex_cons_of_ofChar? rfl rest

theorem lex_colon (rest : List Char) : lex (':' :: rest) = (lex rest).map (.colon :: ·) :=
  lex_cons_of_ofChar? rfl rest

theorem lex_encode (chars rest : List Char) :
    lex (Quoted.encode chars ++ rest) =
      (lex rest).map (.string (some (String.ofList chars)) :: ·) := by
  obtain ⟨pieces, hscan, hchars⟩ := Quoted.exists_pieces chars [] rest
  have htext : Quoted.encode chars ++ rest =
      '"' :: (chars.flatMap Quoted.escape ++ '"' :: rest) := by
    simp [Quoted.encode]
  have hblank : isBlank '"' = false := rfl
  rw [htext, lex]
  simp only [hblank, Bool.false_eq_true, if_false, if_true]
  split
  · rename_i hnone
    rw [hscan] at hnone
    cases hnone
  · rename_i found after hfound
    rw [hscan, List.reverse_nil, List.nil_append] at hfound
    cases hfound
    rw [hchars, Option.map_some]

theorem lex_word {word : List Char} {token : Token} (hword : ofWord? word = some token)
    (hnonempty : word ≠ []) (hchars : word.all inWord = true) {rest : List Char}
    (hrest : EndsWord rest) : lex (word ++ rest) = (lex rest).map (token :: ·) := by
  cases word with
  | nil => exact absurd rfl hnonempty
  | cons char word =>
      have hstart : isBlank char = false ∧ char ≠ '"' ∧ ofChar? char = none := by
        have hchar := List.all_eq_true.mp hchars char List.mem_cons_self
        simpa [inWord, and_assoc] using hchar
      have htail : ∀ char ∈ word, inWord char = true :=
        fun char hchar => List.all_eq_true.mp hchars char (List.mem_cons_of_mem _ hchar)
      have hboundary : rest.takeWhile inWord = [] ∧ rest.dropWhile inWord = rest := by
        cases rest with
        | nil => exact ⟨rfl, rfl⟩
        | cons next rest =>
            have hnext : inWord next = false := hrest next rfl
            simp [hnext]
      rw [List.cons_append, lex]
      simp only [hstart, List.takeWhile_append_of_pos htail, hboundary,
        List.dropWhile_append_of_pos htail, List.append_nil, hword]
      rfl

end Token

/-! ## Values -/

namespace Value

mutual

/-- The tokens that a value is written with. -/
def tokens : Value → List Token
  | .null => [.null]
  | .bool flag => [.bool flag]
  | .number value => [.number value.literal]
  | .string text => [.string (some text)]
  | .array items => .openArray :: (itemTokens items ++ [.closeArray])
  | .object members => .openObject :: (memberTokens members ++ [.closeObject])

def itemTokens : List Value → List Token
  | [] => []
  | [item] => item.tokens
  | item :: rest => item.tokens ++ .comma :: itemTokens rest

def memberTokens : List (String × Value) → List Token
  | [] => []
  | [(name, value)] => .string (some name) :: .colon :: value.tokens
  | (name, value) :: rest =>
    .string (some name) :: .colon :: (value.tokens ++ .comma :: memberTokens rest)

end

theorem lex_ofString (text : String) (rest : List Char) :
    lex (Quoted.ofString text ++ rest) = (lex rest).map (.string (some text) :: ·) := by
  rw [Quoted.ofString, lex_encode, String.ofList_toList]

theorem endsWord_cons {char : Char} (hchar : char ∈ Literal.delimiters) (rest : List Char) :
    EndsWord (char :: rest) := by
  have hdelimiters : Literal.delimiters.all (fun delimiter => !inWord delimiter) = true := by
    decide
  rintro next ⟨⟩
  have hother := List.all_eq_true.mp hdelimiters char hchar
  rwa [Bool.not_eq_true'] at hother

mutual

/-- **The compact text of a value is cut into the tokens of the value.** -/
theorem lex_render (value : Value) (rest : List Char) (hrest : EndsWord rest) :
    lex (value.render ++ rest) = (lex rest).map (value.tokens ++ ·) := by
  match value with
  | .null => exact lex_word rfl (List.cons_ne_nil _ _) (by decide) hrest
  | .bool true => exact lex_word rfl (List.cons_ne_nil _ _) (by decide) hrest
  | .bool false => exact lex_word rfl (List.cons_ne_nil _ _) (by decide) hrest
  | .number numeral =>
      obtain ⟨hspell, htext⟩ := numeral.literal_spec
      obtain ⟨char, word, hcons, -⟩ := Literal.exists_spell_eq_cons hspell
      have hnonempty : numeral.literal.spell ≠ [] := by simp [hcons]
      have hword : numeral.literal.spell.all inWord = true :=
        List.all_eq_true.mpr fun _ => Literal.inWord_of_mem_spell hspell
      rw [render, ← htext]
      exact lex_word (Literal.ofWord?_spell hspell) hnonempty hword hrest
  | .string text => exact lex_ofString text rest
  | .array items =>
      have hitems := lex_renderItems items (']' :: rest) (endsWord_cons (by decide) _)
      have htext : (Value.array items).render ++ rest =
          '[' :: (renderItems items ++ ']' :: rest) := by simp [render]
      rw [htext, lex_cons_of_ofChar? (rfl : ofChar? '[' = some .openArray), hitems,
        lex_cons_of_ofChar? (rfl : ofChar? ']' = some .closeArray), Option.map_map,
        Option.map_map]
      simp [tokens, Function.comp_def]
  | .object members =>
      have hmembers := lex_renderMembers members ('}' :: rest)
        (endsWord_cons (by decide) _)
      have htext : (Value.object members).render ++ rest =
          '{' :: (renderMembers members ++ '}' :: rest) := by simp [render]
      rw [htext, lex_cons_of_ofChar? (rfl : ofChar? '{' = some .openObject), hmembers,
        lex_cons_of_ofChar? (rfl : ofChar? '}' = some .closeObject), Option.map_map,
        Option.map_map]
      simp [tokens, Function.comp_def]

theorem lex_renderItems (items : List Value) (rest : List Char) (hrest : EndsWord rest) :
    lex (renderItems items ++ rest) = (lex rest).map (itemTokens items ++ ·) := by
  match items with
  | [] => simp [renderItems, itemTokens]
  | [item] => exact lex_render item rest hrest
  | item :: next :: more =>
      have hmore := lex_renderItems (next :: more) rest hrest
      have hitem := lex_render item (',' :: (renderItems (next :: more) ++ rest))
        (endsWord_cons (by decide) _)
      have htext : renderItems (item :: next :: more) ++ rest =
          item.render ++ ',' :: (renderItems (next :: more) ++ rest) := by
        simp [renderItems]
      rw [htext, hitem, lex_comma, hmore, Option.map_map, Option.map_map]
      simp [itemTokens, Function.comp_def]

theorem lex_renderMembers (members : List (String × Value)) (rest : List Char)
    (hrest : EndsWord rest) :
    lex (renderMembers members ++ rest) = (lex rest).map (memberTokens members ++ ·) := by
  match members with
  | [] => simp [renderMembers, memberTokens]
  | [(name, value)] =>
      have hvalue := lex_render value rest hrest
      have htext : renderMembers [(name, value)] ++ rest =
          Quoted.ofString name ++ ':' :: (value.render ++ rest) := by
        simp [renderMembers]
      rw [htext, lex_ofString, lex_colon, hvalue, Option.map_map, Option.map_map]
      simp [memberTokens, Function.comp_def]
  | (name, value) :: next :: more =>
      have hmore := lex_renderMembers (next :: more) rest hrest
      have hvalue := lex_render value (',' :: (renderMembers (next :: more) ++ rest))
        (endsWord_cons (by decide) _)
      have htext : renderMembers ((name, value) :: next :: more) ++ rest =
          Quoted.ofString name ++ ':' ::
            (value.render ++ ',' :: (renderMembers (next :: more) ++ rest)) := by
        simp [renderMembers]
      rw [htext, lex_ofString, lex_colon, hvalue, lex_comma, hmore, Option.map_map,
        Option.map_map, Option.map_map, Option.map_map]
      simp [memberTokens, Function.comp_def]

end

end Value

end PagedCache.Json
