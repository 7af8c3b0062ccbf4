import PagedCache.Proofs.Decimal.Digits
import PagedCache.Proofs.Toml.Texts
import PagedCache.Toml.Statement

/-!
# TOML statements are read back

A written line is scanned into one statement.  A text of such lines, with empty lines
anywhere between them, is scanned into the statements of its lines.
-/

namespace PagedCache.Toml

-- Powers are those of the core library, as in the definitions.
attribute [local instance (high)] instPowNat

/-! ## Integers -/

namespace Datetime

variable {word : List Char} (hword : ∀ char ∈ word, Decimal.isDigit char = true)

include hword

theorem date?_digits : date? word = none := by
  unfold date?
  split
  next => exact absurd (hword '-' (by simp)) (by decide)
  next => rfl

theorem time?_digits : time? word = none := by
  unfold time?
  split
  next => exact absurd (hword ':' (by simp)) (by decide)
  next => rfl

/-- Digits alone are no date and no time. -/
theorem isDatetime_digits : isDatetime word = false := by
  rw [isDatetime, date?_digits hword, time?_digits hword]
  rfl

end Datetime

namespace Number

theorem isDigit_of_isDigit {char : Char} (hchar : Decimal.isDigit char = true) :
    isDigit 10 char = true := by
  have hrange := Decimal.isDigit_iff.mp hchar
  have hvalue : Decimal.digitValue char < 10 := by
    have hzero : '0'.toNat = 48 := rfl
    have hnine : '9'.toNat = 57 := rfl
    rw [Decimal.digitValue]
    omega
  simp [isDigit, digitValue?, hchar, hvalue]

theorem digits?_digits {word : List Char} (hnonempty : word ≠ [])
    (hword : ∀ char ∈ word, Decimal.isDigit char = true) : digits? 10 word = some word := by
  induction word with
  | nil => exact absurd rfl hnonempty
  | cons char rest ih =>
      obtain ⟨hchar, hrest⟩ := List.forall_mem_cons.mp hword
      have hdigit := isDigit_of_isDigit hchar
      match rest with
      | [] => rw [digits?, if_pos hdigit]
      | second :: rest =>
          have hsecond : second ≠ '_' := by
            rintro rfl
            exact absurd (hrest '_' List.mem_cons_self) (by decide)
          rw [digits?, if_pos hdigit, ih (by simp) hrest, Option.map_some]
          all_goals simp [hsecond]

/-- The digits of a number are its literal, without a superfluous zero. -/
theorem wholeDigits?_digits (value : Nat) :
    wholeDigits? (Decimal.digits value) = some (Decimal.digits value) := by
  have hdigits : digits? 10 (Decimal.digits value) = some (Decimal.digits value) :=
    digits?_digits (Decimal.digits_ne_nil value) fun _ => Decimal.isDigit_of_mem_digits
  rw [wholeDigits?, hdigits]
  split
  next second rest hzero =>
    obtain rfl | hvalue := Nat.eq_zero_or_pos value
    · cases hzero
    · refine absurd ?_ (Decimal.head?_digits (Nat.ne_of_gt hvalue))
      rw [Option.some.inj hzero]
      rfl
  next => rfl

theorem bounded_ofNat {value : Nat} (hvalue : value < 2 ^ (63 : Nat)) :
    bounded value = some (value : Int) := by
  have hlow : -(2 ^ (63 : Nat)) ≤ (value : Int) := by
    have hpower : (0 : Int) ≤ 2 ^ (63 : Nat) := by decide
    omega
  have hhigh : (value : Int) < 2 ^ (63 : Nat) := by omega
  exact if_pos ⟨hlow, hhigh⟩

theorem integer?_digits {value : Nat} (hvalue : value < 2 ^ (63 : Nat)) :
    integer? (Decimal.digits value) = some (value : Int) := by
  have hword : ∀ char ∈ Decimal.digits value, Decimal.isDigit char = true :=
    fun _ => Decimal.isDigit_of_mem_digits
  have hsign : splitSign (Decimal.digits value) = (false, Decimal.digits value) := by
    unfold splitSign
    split
    next hminus => exact absurd (hword '-' (by simp [hminus])) (by decide)
    next hplus => exact absurd (hword '+' (by simp [hplus])) (by decide)
    next => rfl
  unfold integer?
  split
  next hbase => exact absurd (hword 'x' (by simp [hbase])) (by decide)
  next hbase => exact absurd (hword 'o' (by simp [hbase])) (by decide)
  next hbase => exact absurd (hword 'b' (by simp [hbase])) (by decide)
  next =>
    rw [hsign]
    dsimp only
    rw [wholeDigits?_digits, Option.bind_some, Decimal.ofDigits_digits]
    exact bounded_ofNat hvalue

end Number

namespace Statement

theorem valueOfWord?_digits {value : Nat} (hvalue : value < 2 ^ (63 : Nat)) :
    valueOfWord? (Decimal.digits value) = some (.integer value) := by
  have hword : ∀ char ∈ Decimal.digits value, Decimal.isDigit char = true :=
    fun _ => Decimal.isDigit_of_mem_digits
  unfold valueOfWord?
  split
  next htrue => exact absurd (hword 't' (by simp [htrue])) (by decide)
  next hfalse => exact absurd (hword 'f' (by simp [hfalse])) (by decide)
  next => rw [Datetime.isDatetime_digits hword, Number.integer?_digits hvalue]; rfl

/-! ## Values -/

/-- Characters that neither a line nor a value begins with: those of fillers, the bracket
after an array, and the byte order mark. -/
def fillers : List Char :=
  [' ', '\t', '\n', '\r', '#', ']', '\ufeff']

theorem skipBlanks_cons {first : Char} (hfirst : first ∉ fillers) (rest : List Char) :
    skipBlanks (first :: rest) = first :: rest := by
  simp only [fillers, List.mem_cons, not_or] at hfirst
  simp [skipBlanks, Text.isBlank, hfirst]

theorem skipFiller_cons {first : Char} (hfirst : first ∉ fillers) (rest : List Char) :
    skipFiller false (first :: rest) = some (first :: rest) := by
  simp only [fillers, List.mem_cons, not_or] at hfirst
  rw [skipFiller]
  all_goals simp [Text.isBlank, hfirst]

/-- What may come right after a value: the end of a line or an array, or a comma. -/
def ends : List Char :=
  ['\n', ',', ']']

theorem mem_ends {char : Char} : char ∈ ends ↔ char = '\n' ∨ char = ',' ∨ char = ']' := by
  simp [ends]

/-- The text is read as the value wherever a value may stand. -/
structure Spells (depth : Nat) (text : List Char) (value : Value) : Prop where
  start : ∃ first rest, text = first :: rest ∧ first ∉ fillers
  scan : ∀ stop ∈ ends, ∀ rest,
    scanValue depth (text ++ stop :: rest) = some (value, stop :: rest)

theorem scanValue_eq_scanScalar {depth : Nat} {first : Char} (hfirst : first ∉ ['[', '{'])
    (rest : List Char) : scanValue depth (first :: rest) = scanScalar (first :: rest) := by
  simp only [List.mem_cons, List.not_mem_nil, or_false, not_or] at hfirst
  cases depth with
  | zero => rfl
  | succ depth =>
      rw [scanValue]
      all_goals simp [hfirst]

/-- A string is written between quotes. -/
theorem exists_string_eq_cons (text : String) :
    ∃ quote rest, Writer.string text = quote :: rest ∧ (quote = '"' ∨ quote = '\'') := by
  rw [Writer.string]
  cases Writer.styleFor text.toList with
  | basic => exact ⟨_, _, rfl, .inl rfl⟩
  | literal => exact ⟨_, _, rfl, .inr rfl⟩
  | multilineBasic => exact ⟨_, _, rfl, .inl rfl⟩
  | multilineLiteral => exact ⟨_, _, rfl, .inr rfl⟩

theorem spells_string (depth : Nat) (text : String) :
    Spells depth (Writer.string text) (.string text) := by
  obtain ⟨quote, more, hstring, hquote⟩ := exists_string_eq_cons text
  refine ⟨⟨quote, more, hstring, ?_⟩, fun stop hstop rest => ?_⟩
  · rcases hquote with rfl | rfl <;> decide
  · have hhead : stop ≠ '"' ∧ stop ≠ '\'' := by
      refine ⟨?_, ?_⟩
      all_goals
        rintro rfl
        exact absurd hstop (by decide)
    have hscan : Text.scan (Writer.string text ++ stop :: rest) = some (text, stop :: rest) :=
      Text.scan_string text (by simp [hhead])
    have hscalar : scanValue depth (quote :: (more ++ stop :: rest)) =
        scanScalar (quote :: (more ++ stop :: rest)) := by
      apply scanValue_eq_scanScalar
      rcases hquote with rfl | rfl <;> decide
    rw [hstring, List.cons_append] at hscan ⊢
    rw [hscalar, scanScalar, if_pos (by simpa using hquote), hscan, Option.map_some]

theorem inWord_of_isDigit {char : Char} (hchar : Decimal.isDigit char = true) :
    inWord char = true := by
  simp [inWord, inBareKey, isAlphanumeric, hchar]

/-- A character of a kind is no mark if no mark is of that kind. -/
theorem not_mem_of_all_not {kind : Char → Bool} {char : Char} (hchar : kind char = true)
    {marks : List Char} (hmarks : marks.all (fun mark => !kind mark) = true) :
    char ∉ marks := by
  intro hmem
  have hother := List.all_eq_true.mp hmarks char hmem
  rw [hchar] at hother
  cases hother

section While

variable {keep : Char → Bool} {front : List Char} (hfront : ∀ char ∈ front, keep char = true)
  {stop : Char} (hstop : keep stop = false) (rest : List Char)

include hfront hstop

theorem takeWhile_append_stop : (front ++ stop :: rest).takeWhile keep = front := by
  rw [List.takeWhile_append_of_pos hfront, List.takeWhile_cons_of_neg (by simp [hstop]),
    List.append_nil]

theorem dropWhile_append_stop : (front ++ stop :: rest).dropWhile keep = stop :: rest := by
  rw [List.dropWhile_append_of_pos hfront, List.dropWhile_cons_of_neg (by simp [hstop])]

end While

theorem spells_digits (depth : Nat) {value : Nat} (hvalue : value < 2 ^ (63 : Nat)) :
    Spells depth (Decimal.digits value) (.integer value) := by
  have hdigit : ∀ char ∈ Decimal.digits value, Decimal.isDigit char = true :=
    fun _ => Decimal.isDigit_of_mem_digits
  obtain ⟨first, more, hdigits⟩ := List.exists_cons_of_ne_nil (Decimal.digits_ne_nil value)
  have hfirst : Decimal.isDigit first = true := hdigit first (by simp [hdigits])
  refine ⟨⟨first, more, hdigits, not_mem_of_all_not hfirst (by decide)⟩,
    fun stop hstop rest => ?_⟩
  have hstart : scanValue depth (Decimal.digits value ++ stop :: rest) =
      scanScalar (Decimal.digits value ++ stop :: rest) := by
    rw [hdigits]
    exact scanValue_eq_scanScalar (not_mem_of_all_not hfirst (by decide)) _
  have hquote : ¬((Decimal.digits value ++ stop :: rest).head? = some '"' ∨
      (Decimal.digits value ++ stop :: rest).head? = some '\'') := by
    have hquotes : first ∉ ['"', '\''] := not_mem_of_all_not hfirst (by decide)
    simpa [hdigits] using hquotes
  have hword : ∀ char ∈ Decimal.digits value, inWord char = true :=
    fun char hchar => inWord_of_isDigit (hdigit char hchar)
  obtain ⟨hother, hblank⟩ : inWord stop = false ∧ stop ≠ ' ' := by
    rcases mem_ends.mp hstop with rfl | rfl | rfl <;> decide
  rw [hstart, scanScalar, if_neg hquote]
  simp only [takeWhile_append_stop hword hother, dropWhile_append_stop hword hother]
  split
  next heq => exact absurd (List.cons.inj heq).1 hblank
  next => rw [valueOfWord?_digits hvalue, Option.map_some]

/-- An array is written between brackets. -/
theorem spells_array {depth : Nat} (body : List Char) {items : List Value}
    (hitems : ∀ bound, body.length < bound → ∀ rest,
      scanItems (scanValue depth) bound (body ++ ']' :: rest) = some (items, rest)) :
    Spells (depth + 1) ('[' :: body ++ [']']) (.array items) := by
  refine ⟨⟨'[', _, rfl, by decide⟩, fun stop _ rest => ?_⟩
  have htext : '[' :: body ++ [']'] ++ stop :: rest = '[' :: (body ++ ']' :: stop :: rest) := by
    simp
  have hbound : body.length < ('[' :: (body ++ ']' :: stop :: rest)).length := by
    rw [List.length_cons, List.length_append]
    omega
  rw [htext, scanValue, hitems _ hbound, Option.map_some]

section Items

variable {depth : Nat} {text : List Char} {value : Value} (htext : Spells depth text value)

include htext

theorem skipFiller_append (rest : List Char) :
    skipFiller false (text ++ rest) = some (text ++ rest) := by
  obtain ⟨first, more, hcons, hfirst⟩ := htext.start
  rw [hcons]
  exact skipFiller_cons hfirst _

/-- Where an item starts, it is scanned. -/
theorem scanItems_append {filler : List Char}
    (hfiller : ∀ rest, skipFiller false (filler ++ rest) = skipFiller false rest) (bound : Nat)
    {stop : Char} (hstop : stop ∈ ends) (rest : List Char) :
    scanItems (scanValue depth) (bound + 1) (filler ++ (text ++ stop :: rest)) =
      match skipFiller false (stop :: rest) with
      | some (']' :: rest) => some ([value], rest)
      | some (',' :: rest) =>
        (scanItems (scanValue depth) bound rest).map fun (values, after) =>
          (value :: values, after)
      | _ => none := by
  rw [scanItems, hfiller, skipFiller_append htext]
  split
  next hnone => cases hnone
  next after hclose =>
    obtain ⟨first, more, hcons, hfirst⟩ := htext.start
    rw [hcons, List.cons_append] at hclose
    obtain rfl : first = ']' := (List.cons.inj (Option.some.inj hclose)).1
    exact absurd (by decide) hfirst
  next start _ hstart =>
    rewrite [← Option.some.inj hstart, htext.scan stop hstop]
    rfl

theorem scanItems_comma {filler : List Char}
    (hfiller : ∀ rest, skipFiller false (filler ++ rest) = skipFiller false rest) (bound : Nat)
    (rest : List Char) :
    scanItems (scanValue depth) (bound + 1) (filler ++ (text ++ ',' :: rest)) =
      (scanItems (scanValue depth) bound rest).map fun (values, after) =>
        (value :: values, after) :=
  (scanItems_append htext hfiller bound (by decide) rest).trans rfl

theorem scanItems_bracket (bound : Nat) (rest : List Char) :
    scanItems (scanValue depth) (bound + 1) (text ++ ']' :: rest) = some ([value], rest) := by
  have hfiller : ∀ rest, skipFiller false ([] ++ rest) = skipFiller false rest := fun _ => rfl
  exact (scanItems_append htext hfiller bound (by decide) rest).trans rfl

end Items

/-- The line of an item, in an array that has a line for each. -/
def itemLine (text : String) : List Char :=
  "\n    ".toList ++ Writer.string text ++ [',']

theorem itemLine_append (text : String) (rest : List Char) :
    itemLine text ++ rest = "\n    ".toList ++ (Writer.string text ++ ',' :: rest) := by
  have hline : itemLine text = "\n    ".toList ++ Writer.string text ++ [','] := rfl
  rw [hline, List.append_assoc, List.append_assoc, List.singleton_append]

theorem length_le_itemLines (texts : List String) :
    texts.length ≤ (texts.flatMap itemLine).length := by
  induction texts with
  | nil => exact Nat.le_refl 0
  | cons text texts ih =>
      have hline : 0 < (itemLine text).length :=
        List.length_pos_of_mem (List.mem_append_right _ (List.mem_singleton_self ','))
      rw [List.flatMap_cons, List.length_append, List.length_cons]
      omega

theorem scanItems_lines (depth : Nat) (texts : List String) {bound : Nat}
    (hbound : texts.length < bound) (rest : List Char) :
    scanItems (scanValue depth) bound (texts.flatMap itemLine ++ '\n' :: ']' :: rest) =
      some (texts.map .string, rest) := by
  have hfiller : ∀ rest, skipFiller false ("\n    ".toList ++ rest) = skipFiller false rest :=
    fun _ => rfl
  induction texts generalizing bound with
  | nil =>
      obtain ⟨bound, rfl⟩ := Nat.exists_eq_add_of_lt hbound
      rfl
  | cons text texts ih =>
      obtain ⟨bound, rfl⟩ := Nat.exists_eq_add_of_lt hbound
      rw [List.flatMap_cons, List.append_assoc, itemLine_append,
        scanItems_comma (spells_string depth text) hfiller, ih (by simp; omega)]
      rfl

theorem spells_strings (depth : Nat) (texts : List String) :
    Spells (depth + 1) (Writer.strings texts) (.array (texts.map .string)) := by
  match texts with
  | [] =>
      have hitems : ∀ bound, 0 < bound → ∀ rest,
          scanItems (scanValue depth) bound (']' :: rest) = some ([], rest) := by
        intro bound hbound rest
        obtain ⟨bound, rfl⟩ := Nat.exists_eq_add_of_lt hbound
        rfl
      exact spells_array [] hitems
  | [text] =>
      refine spells_array _ fun bound hbound rest => ?_
      obtain ⟨bound, rfl⟩ := Nat.exists_eq_add_of_lt hbound
      exact scanItems_bracket (spells_string depth text) _ rest
  | first :: second :: texts =>
      have hwritten : Writer.strings (first :: second :: texts) =
          '[' :: ((first :: second :: texts).flatMap itemLine ++ ['\n']) ++ [']'] := by
        rw [List.cons_append, List.append_assoc]
        rfl
      rw [hwritten]
      refine spells_array _ fun bound hbound rest => ?_
      rw [List.append_assoc]
      refine scanItems_lines depth _ (Nat.lt_of_le_of_lt ?_ hbound) rest
      rw [List.length_append]
      exact Nat.le_add_right_of_le (length_le_itemLines _)

/-! ## Keys -/

/-- A name that needs no quotes as a key. -/
structure IsBare (name : String) : Prop where
  ne_nil : name.toList ≠ []
  inBareKey : ∀ char ∈ name.toList, Statement.inBareKey char = true

instance (name : String) : Decidable (IsBare name) :=
  decidable_of_iff (name.toList ≠ [] ∧ name.toList.all inBareKey = true)
    ⟨fun ⟨hnil, hchars⟩ => ⟨hnil, List.all_eq_true.mp hchars⟩,
      fun ⟨hnil, hchars⟩ => ⟨hnil, List.all_eq_true.mpr hchars⟩⟩

section Keys

variable {name : String} (hname : IsBare name)

include hname

theorem exists_cons_of_isBare (marks : List Char)
    (hmarks : marks.all (fun mark => !inBareKey mark) = true) :
    ∃ first rest, name.toList = first :: rest ∧ first ∉ marks := by
  obtain ⟨first, rest, htext⟩ := List.exists_cons_of_ne_nil hname.ne_nil
  have hfirst : inBareKey first = true := hname.inBareKey first (by simp [htext])
  exact ⟨first, rest, htext, not_mem_of_all_not hfirst hmarks⟩

theorem scanKey_append {stop : Char} (hstop : inBareKey stop = false) (rest : List Char)
    (hdot : (skipBlanks (stop :: rest)).head? ≠ some '.') :
    scanKey (name.toList ++ stop :: rest) = some (([], name), skipBlanks (stop :: rest)) := by
  obtain ⟨first, more, htext, hfirst⟩ :=
    exists_cons_of_isBare hname ('"' :: '\'' :: fillers) (by decide)
  simp only [List.mem_cons, not_or] at hfirst
  have hpart : scanKeyPart (name.toList ++ stop :: rest) = some (name, stop :: rest) := by
    have hnonempty : name.toList.isEmpty = false := by simp [htext]
    unfold scanKeyPart
    split
    next heq =>
      rw [htext] at heq
      exact absurd (List.cons.inj heq).1 hfirst.1
    next heq =>
      rw [htext] at heq
      exact absurd (List.cons.inj heq).1 hfirst.2.1
    next =>
      simp only [takeWhile_append_stop hname.inBareKey hstop,
        dropWhile_append_stop hname.inBareKey hstop, hnonempty, Bool.false_eq_true, if_false,
        String.ofList_toList]
  have hstart : skipBlanks (name.toList ++ stop :: rest) = name.toList ++ stop :: rest := by
    rw [htext]
    exact skipBlanks_cons hfirst.2.2 _
  have hparts : scanKeyParts maxKeyLength (name.toList ++ stop :: rest) =
      some ([name], skipBlanks (stop :: rest)) := by
    change scanKeyParts (78 + 1) _ = _
    rw [scanKeyParts, hstart, hpart]
    dsimp only
    split
    next heq =>
      rw [heq] at hdot
      exact absurd rfl hdot
    next => rfl
  rw [scanKey, hparts]
  rfl

end Keys

/-! ## Lines -/

/-- The line is scanned into the statement, whatever lines come after it. -/
structure IsLine (line : List Char) (statement : Statement) : Prop where
  start : ∃ first rest, line = first :: rest ∧ first ∉ fillers
  scan : ∀ rest, scanLine (line ++ rest) = some (statement, rest)

theorem isLine_assignment {name : String} (hname : IsBare name) {text : List Char} {value : Value}
    (htext : Spells maxDepth text value) :
    IsLine (Writer.assignment name text) (.assign [] name value) := by
  obtain ⟨first, more, hcons, hfirst⟩ :=
    exists_cons_of_isBare hname ('[' :: fillers) (by decide)
  rw [List.mem_cons, not_or] at hfirst
  refine ⟨⟨first, _, by rw [Writer.assignment, hcons]; rfl, hfirst.2⟩, fun rest => ?_⟩
  obtain ⟨start, body, hstart, hfiller⟩ := htext.start
  have hline : Writer.assignment name text ++ rest =
      name.toList ++ ' ' :: '=' :: ' ' :: (text ++ '\n' :: rest) := by
    simp [Writer.assignment]
  have hvalue : skipBlanks (' ' :: (text ++ '\n' :: rest)) = text ++ '\n' :: rest := by
    rw [hstart]
    exact skipBlanks_cons hfiller _
  have hassignment : scanAssignment (scanValue maxDepth) (Writer.assignment name text ++ rest) =
      some (([], name, value), '\n' :: rest) := by
    rw [hline, scanAssignment, scanKey_append hname (by decide) _
      (by simp [skipBlanks, Text.isBlank])]
    change ((scanValue maxDepth (skipBlanks (' ' :: (text ++ '\n' :: rest)))).map _) = _
    rw [hvalue, htext.scan '\n' (by decide)]
    rfl
  rw [hline, hcons, List.cons_append] at hassignment ⊢
  rw [scanLine, hassignment]
  · rfl
  all_goals simp [hfirst.1]

theorem isLine_table {name : String} (hname : IsBare name) :
    IsLine ('[' :: name.toList ++ [']', '\n']) (.table [] name) := by
  obtain ⟨first, more, hcons, hfirst⟩ := exists_cons_of_isBare hname ['['] (by decide)
  refine ⟨⟨'[', _, rfl, by decide⟩, fun rest => ?_⟩
  have hkey : scanKey (name.toList ++ ']' :: '\n' :: rest) =
      some (([], name), ']' :: '\n' :: rest) :=
    scanKey_append hname (by decide) _ (by simp [skipBlanks, Text.isBlank])
  have hline : '[' :: name.toList ++ [']', '\n'] ++ rest =
      '[' :: (name.toList ++ ']' :: '\n' :: rest) := by
    simp
  rw [hline, scanLine, hkey]
  · rfl
  · intro after hnested
    rw [hcons, List.cons_append] at hnested
    exact hfirst (by simp [(List.cons.inj hnested).1])

theorem isLine_element {name : String} (hname : IsBare name) :
    IsLine ('[' :: '[' :: name.toList ++ [']', ']', '\n']) (.element [] name) := by
  refine ⟨⟨'[', _, rfl, by decide⟩, fun rest => ?_⟩
  have hkey : scanKey (name.toList ++ ']' :: ']' :: '\n' :: rest) =
      some (([], name), ']' :: ']' :: '\n' :: rest) :=
    scanKey_append hname (by decide) _ (by simp [skipBlanks, Text.isBlank])
  have hline : '[' :: '[' :: name.toList ++ [']', ']', '\n'] ++ rest =
      '[' :: '[' :: (name.toList ++ ']' :: ']' :: '\n' :: rest) := by
    simp
  rw [hline, scanLine, hkey]
  rfl

/-! ## Texts -/

/-- The text has a line for each of the statements, and empty lines anywhere between them. -/
inductive Writes : List Char → List Statement → Prop where
  | nil : Writes [] []
  | blank {text : List Char} {statements : List Statement} (hrest : Writes text statements) :
      Writes ('\n' :: text) statements
  | line {line text : List Char} {statement : Statement} {statements : List Statement}
      (hline : IsLine line statement) (hrest : Writes text statements) :
      Writes (line ++ text) (statement :: statements)

theorem Writes.append {first second : List Char} {front back : List Statement}
    (hfirst : Writes first front) (hsecond : Writes second back) :
    Writes (first ++ second) (front ++ back) := by
  induction hfirst with
  | nil => exact hsecond
  | blank _ ih => exact ih.blank
  | line hline _ ih =>
      rw [List.append_assoc]
      exact ih.line hline

theorem Writes.singleton {line : List Char} {statement : Statement}
    (hline : IsLine line statement) : Writes line [statement] := by
  rw [← List.append_nil line]
  exact .line hline .nil

/-- **The statements of a text are scanned.** -/
theorem scanAll_of_writes {text : List Char} {statements : List Statement}
    (htext : Writes text statements) {bound : Nat} (hbound : text.length < bound) :
    scanAll bound text = some statements := by
  induction htext generalizing bound with
  | nil =>
      obtain ⟨bound, rfl⟩ := Nat.exists_eq_add_of_lt hbound
      rfl
  | @blank text statements hrest ih =>
      obtain ⟨bound, rfl⟩ := Nat.exists_eq_add_of_lt hbound
      have hskip : ∀ bound, scanAll (bound + 1) ('\n' :: text) = scanAll (bound + 1) text := by
        intro bound
        rw [scanAll, scanAll, skipFiller]
      rw [hskip]
      exact ih (by simp; omega)
  | @line line text statement statements hline hrest ih =>
      obtain ⟨bound, rfl⟩ := Nat.exists_eq_add_of_lt hbound
      obtain ⟨first, more, hcons, hfirst⟩ := hline.start
      have hscan := hline.scan text
      rw [hcons, List.cons_append] at hscan hbound ⊢
      rw [scanAll, skipFiller_cons hfirst]
      dsimp only
      rw [hscan]
      dsimp only
      rw [ih (by simp; omega), Option.map_some]

end Statement

end PagedCache.Toml
