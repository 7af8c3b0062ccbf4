import PagedCache.Toml.Text
import PagedCache.Toml.Writer
import Mathlib.Data.List.Basic

/-!
# TOML strings are read back

Whatever notation a text is written in, scanning gives the text back.
-/

namespace PagedCache.Toml.Text

open Writer

/-- What is read next comes behind what was read. -/
theorem reverse_cons_append (char : Char) (reversed text : List Char) :
    (char :: reversed).reverse ++ text = reversed.reverse ++ char :: text := by
  rw [List.reverse_cons, List.append_assoc, List.singleton_append]

/-! ## Characters between double quotes -/

theorem ne_of_isPrintable {char : Char} (hchar : isPrintable char = true) :
    char ≠ '\n' ∧ char ≠ '\r' := by
  refine ⟨?_, ?_⟩
  all_goals
    rintro rfl
    cases hchar

/-- How a character other than a bare quote or line end stands between double quotes. -/
inductive Written (char : Char) : List Char → Prop where
  | mark (mark : Char) (hmark : escaped? mark = some char) : Written char ['\\', mark]
  | hexadecimal (hcontrol : char.toNat < 0x80) :
      Written char ('\\' :: 'u' :: hexDigits char.toNat)
  | plain (hquote : char ≠ '"') (hbackslash : char ≠ '\\') (hprintable : isPrintable char = true) :
      Written char [char]

theorem written_escape {multiline : Bool} {allowed quotes : Nat} {char : Char}
    (hquote : char = '"' → ¬quotes < allowed) (hline : char = '\n' → multiline = false) :
    Written char (escape multiline allowed quotes char) := by
  by_cases hmarked : char ∈ ['\x08', '\t', '\n', '\x0c', '\r', '\\', '"']
  · simp only [List.mem_cons, List.not_mem_nil, or_false] at hmarked
    rcases hmarked with rfl | rfl | rfl | rfl | rfl | rfl | rfl
    case inr.inr.inl =>
      rw [hline rfl]
      exact .mark 'n' rfl
    case inr.inr.inr.inr.inr.inr =>
      rw [escape, if_neg (hquote rfl)]
      exact .mark '"' rfl
    all_goals exact .mark _ rfl
  · simp only [List.mem_cons, List.not_mem_nil, or_false, not_or] at hmarked
    have hescape : escape multiline allowed quotes char =
        if char.toNat < 0x20 || char.toNat = 0x7f then '\\' :: 'u' :: hexDigits char.toNat
        else [char] := by
      unfold escape
      split <;> simp_all
    rw [hescape]
    split
    next hcontrol =>
      rw [Bool.or_eq_true, decide_eq_true_eq, decide_eq_true_eq] at hcontrol
      exact .hexadecimal (by omega)
    next hcontrol =>
      refine .plain hmarked.2.2.2.2.2.2 hmarked.2.2.2.2.2.1 ?_
      simp only [Bool.or_eq_true, decide_eq_true_eq, not_or, Nat.not_lt] at hcontrol
      simp [isPrintable, hcontrol]

theorem ne_of_escaped? {mark char : Char} (hmark : escaped? mark = some char) :
    mark ≠ 'u' ∧ mark ≠ 'U' := by
  refine ⟨?_, ?_⟩
  all_goals
    rintro rfl
    cases hmark

theorem charOfHex?_hexDigits {char : Char} (hchar : char.toNat < 0x80) :
    charOfHex? (hexDigits char.toNat) = some char := by
  have hall : ∀ value < 0x80, charOfHex? (hexDigits value) = some (Char.ofNat value) := by decide
  rw [hall char.toNat hchar, Char.ofNat_toNat]

theorem Written.exists_cons {char : Char} {written : List Char} (hwritten : Written char written) :
    ∃ first rest, written = first :: rest ∧ first ∉ ['"', '\n', '\r'] := by
  cases hwritten with
  | mark mark hmark => exact ⟨_, _, rfl, by decide⟩
  | hexadecimal hcontrol => exact ⟨_, _, rfl, by decide⟩
  | plain hquote hbackslash hprintable =>
      refine ⟨char, [], rfl, fun hmem => ?_⟩
      simp only [List.mem_cons, List.not_mem_nil, or_false] at hmem
      rcases hmem with rfl | rfl | rfl
      · exact hquote rfl
      · cases hprintable
      · cases hprintable

section Scan

variable {char : Char} {written : List Char} (hwritten : Written char written)
  (reversed rest : List Char)

include hwritten

theorem scanBasic_written :
    scanBasic reversed (written ++ rest) = scanBasic (char :: reversed) rest := by
  cases hwritten with
  | mark mark hmark =>
      have hshort : mark ≠ 'u' ∧ mark ≠ 'U' := ne_of_escaped? hmark
      rw [List.cons_append, List.singleton_append, scanBasic, hmark]
      all_goals simp [hshort]
  | hexadecimal hcontrol =>
      have hchar := charOfHex?_hexDigits hcontrol
      simp only [hexDigits, List.map_cons, List.map_nil, List.cons_append, List.nil_append]
        at hchar ⊢
      rw [scanBasic, hchar]
  | plain hquote hbackslash hprintable =>
      rw [List.singleton_append, scanBasic]
      · rw [if_pos (by simp [hprintable, hbackslash])]
      all_goals simp_all

theorem scanMultilineBasic_written :
    scanMultilineBasic .off reversed (written ++ rest) =
      scanMultilineBasic .off (char :: reversed) rest := by
  cases hwritten with
  | mark mark hmark =>
      have hshort : mark ≠ 'u' ∧ mark ≠ 'U' := ne_of_escaped? hmark
      rw [List.cons_append, List.singleton_append, scanMultilineBasic]
      all_goals simp [hshort, hmark]
  | hexadecimal hcontrol =>
      have hchar := charOfHex?_hexDigits hcontrol
      simp only [hexDigits, List.map_cons, List.map_nil, List.cons_append, List.nil_append]
        at hchar ⊢
      rw [scanMultilineBasic]
      all_goals simp [hchar]
  | plain hquote hbackslash hprintable =>
      obtain ⟨hline, hreturn⟩ := ne_of_isPrintable hprintable
      rw [List.singleton_append, scanMultilineBasic]
      · simp [hprintable, hbackslash]
      all_goals simp_all

end Scan

/-- **A string between double quotes is read back.** -/
theorem scanBasic_escapeAll (text reversed rest : List Char) :
    scanBasic reversed (escapeAll false 0 0 text ++ '"' :: rest) =
      some (String.ofList (reversed.reverse ++ text), rest) := by
  induction text generalizing reversed with
  | nil => rw [escapeAll, List.nil_append, scanBasic, List.append_nil]
  | cons char text ih =>
      have hnext : (if (char = '"' && (0 : Nat) < 0) = true then 0 + 1 else 0) = 0 := by simp
      have hwritten : Written char (escape false 0 0 char) :=
        written_escape (fun _ => by omega) fun _ => rfl
      simp only [escapeAll, hnext, List.append_assoc]
      rw [scanBasic_written hwritten, ih, reverse_cons_append]

/-! ## Runs of quotes -/

section Closing

variable {quote : Char} {count : Nat} (hcount : count ≤ 2) (reversed : List Char)
  {rest : List Char}

include hcount

/-- Quotes right before the closing ones are moved behind them. -/
theorem replicate_append_quotes (quote : Char) (rest : List Char) :
    List.replicate count quote ++ quote :: quote :: quote :: rest =
      quote :: quote :: quote :: (List.replicate count quote ++ rest) := by
  match count, hcount with
  | 0, _ => rfl
  | 1, _ => rfl
  | 2, _ => rfl

theorem closeWith_replicate (hrest : rest.head? ≠ some quote) :
    closeWith quote reversed (List.replicate count quote ++ rest) =
      some (String.ofList (reversed.reverse ++ List.replicate count quote), rest) := by
  have hextra : ((List.replicate count quote ++ rest).take 2).takeWhile (· = quote) =
      List.replicate count quote := by
    match count, hcount, rest with
    | 0, _, [] => rfl
    | 0, _, first :: rest => simp_all
    | 1, _, [] => simp
    | 1, _, first :: rest => simp_all
    | 2, _, rest => simp
  rw [closeWith, hextra, List.length_replicate, List.reverse_append, List.reverse_replicate,
    List.drop_left' List.length_replicate]

theorem scanMultilineBasic_close (hrest : rest.head? ≠ some '"') :
    scanMultilineBasic .off reversed (List.replicate count '"' ++ '"' :: '"' :: '"' :: rest) =
      some (String.ofList (reversed.reverse ++ List.replicate count '"'), rest) := by
  rw [replicate_append_quotes hcount, scanMultilineBasic, if_neg (by decide),
    closeWith_replicate hcount reversed hrest]

theorem scanMultilineLiteral_close (hrest : rest.head? ≠ some '\'') :
    scanMultilineLiteral reversed
        (List.replicate count '\'' ++ '\'' :: '\'' :: '\'' :: rest) =
      some (String.ofList (reversed.reverse ++ List.replicate count '\''), rest) := by
  rw [replicate_append_quotes hcount, scanMultilineLiteral,
    closeWith_replicate hcount reversed hrest]

end Closing

section Quote

variable (reversed : List Char) {input : List Char}

/-- A quote that no two others follow stands for itself. -/
theorem scanMultilineBasic_quote (hinput : ¬['"', '"'] <+: input) :
    scanMultilineBasic .off reversed ('"' :: input) =
      scanMultilineBasic .off ('"' :: reversed) input := by
  rw [scanMultilineBasic]
  case x_3 =>
    rintro rest - rfl
    exact hinput ⟨rest, rfl⟩
  all_goals simp [isBlank, isPrintable]

theorem scanMultilineLiteral_quote (hinput : ¬['\'', '\''] <+: input) :
    scanMultilineLiteral reversed ('\'' :: input) =
      scanMultilineLiteral ('\'' :: reversed) input := by
  rw [scanMultilineLiteral]
  case x_1 =>
    rintro rest - rfl
    exact hinput ⟨rest, rfl⟩
  all_goals simp [isPrintable]

end Quote

theorem escapeAll_quote {quotes : Nat} (hquotes : quotes < 2) (text : List Char) :
    escapeAll true 2 quotes ('"' :: text) = '"' :: escapeAll true 2 (quotes + 1) text := by
  simp [escapeAll, escape, hquotes]

theorem escapeAll_lineEnd (quotes : Nat) (text : List Char) :
    escapeAll true 2 quotes ('\n' :: text) = '\n' :: escapeAll true 2 0 text := by
  simp [escapeAll, escape]

/-- What is not a bare quote does not start with a quote. -/
theorem escapeAll_cons_ne {char : Char} {quotes : Nat}
    (hchar : char = '"' → ¬quotes < 2) (text : List Char) :
    ∃ first rest, escapeAll true 2 quotes (char :: text) = first :: rest ∧ first ≠ '"' := by
  by_cases hline : char = '\n'
  · rw [hline]
    exact ⟨'\n', _, escapeAll_lineEnd quotes text, by decide⟩
  · have hwritten : Written char (escape true 2 quotes char) :=
      written_escape hchar fun heq => absurd heq hline
    obtain ⟨first, more, hescape, hfirst⟩ := hwritten.exists_cons
    refine ⟨first, _, by rw [escapeAll, hescape]; rfl, ?_⟩
    rintro rfl
    exact hfirst List.mem_cons_self

/-- Two quotes right after a bare one are the end of the text and the closing quotes. -/
theorem escapeAll_of_quotes {quotes : Nat} (hquotes : 1 ≤ quotes ∧ quotes ≤ 2)
    {text rest : List Char}
    (hrun : ['"', '"'] <+: escapeAll true 2 quotes text ++ '"' :: '"' :: '"' :: rest) :
    ∃ count, count + 1 ≤ 2 ∧ text = List.replicate count '"' ∧
      escapeAll true 2 quotes text = List.replicate count '"' := by
  match text with
  | [] => exact ⟨0, by decide, rfl, rfl⟩
  | char :: text =>
      by_cases hbare : char = '"' ∧ quotes < 2
      · obtain ⟨rfl, hfew⟩ := hbare
        obtain rfl : quotes = 1 := by omega
        rw [escapeAll_quote hfew] at hrun ⊢
        match text with
        | [] => exact ⟨1, by decide, rfl, rfl⟩
        | char :: text =>
            obtain ⟨first, more, hescape, hfirst⟩ :=
              escapeAll_cons_ne (fun _ : char = '"' => Nat.lt_irrefl 2) text
            rw [hescape, List.cons_append, List.cons_append, List.cons_prefix_cons,
              List.cons_prefix_cons] at hrun
            exact absurd hrun.2.1.symm hfirst
      · obtain ⟨first, more, hescape, hfirst⟩ :=
          escapeAll_cons_ne (fun hquote hfew => hbare ⟨hquote, hfew⟩) text
        rw [hescape, List.cons_append, List.cons_prefix_cons] at hrun
        exact absurd hrun.1.symm hfirst

/-- **A string between triple double quotes is read back.**  A run of quotes in the text is
broken before its third one; a run at the end of the text meets the closing quotes. -/
theorem scanMultilineBasic_escapeAll (text : List Char) {quotes : Nat} (hquotes : quotes ≤ 2)
    (reversed : List Char) {rest : List Char} (hrest : rest.head? ≠ some '"') :
    scanMultilineBasic .off reversed
        (escapeAll true 2 quotes text ++ '"' :: '"' :: '"' :: rest) =
      some (String.ofList (reversed.reverse ++ text), rest) := by
  induction text generalizing quotes reversed with
  | nil => exact scanMultilineBasic_close (Nat.zero_le 2) reversed hrest
  | cons char text ih =>
      by_cases hbare : char = '"' ∧ quotes < 2
      · obtain ⟨rfl, hfew⟩ := hbare
        rw [escapeAll_quote hfew, List.cons_append]
        -- three quotes in a row are the closing ones, moved to the front of the run
        by_cases hrun : ['"', '"'] <+:
            escapeAll true 2 (quotes + 1) text ++ '"' :: '"' :: '"' :: rest
        · obtain ⟨count, hcount, htext, hescape⟩ := escapeAll_of_quotes (by omega) hrun
          rw [hescape, htext]
          exact scanMultilineBasic_close hcount reversed hrest
        · rw [scanMultilineBasic_quote _ hrun, ih (by omega), reverse_cons_append]
      · by_cases hline : char = '\n'
        · rw [hline, escapeAll_lineEnd, List.cons_append, scanMultilineBasic, ih (by omega),
            reverse_cons_append]
        · have hwritten : Written char (escape true 2 quotes char) :=
            written_escape (fun hquote hfew => hbare ⟨hquote, hfew⟩)
              fun heq => absurd heq hline
          have hescape : escapeAll true 2 quotes (char :: text) =
              escape true 2 quotes char ++ escapeAll true 2 0 text := by
            have hother : ¬(decide (char = '"') && decide (quotes < 2)) = true := by
              rwa [Bool.and_eq_true, decide_eq_true_iff, decide_eq_true_iff]
            simp only [escapeAll, if_neg hother]
          rw [hescape, List.append_assoc, scanMultilineBasic_written hwritten, ih (by omega),
            reverse_cons_append]

theorem le_longestRun (quote : Char) (run longest : Nat) (text : List Char) :
    longest ≤ longestRun quote run longest text := by
  induction text generalizing run longest with
  | nil => exact Nat.le_refl longest
  | cons char text ih =>
      rw [longestRun]
      split
      · exact Nat.le_trans (Nat.le_max_left longest (run + 1)) (ih _ _)
      · exact ih _ _

theorem longestRun_quote {quote : Char} {run longest : Nat} {text : List Char}
    (hruns : longestRun quote run longest (quote :: text) ≤ 2) :
    longestRun quote (run + 1) (max longest (run + 1)) text ≤ 2 ∧ run + 1 ≤ 2 := by
  rw [longestRun, if_pos rfl] at hruns
  have hlongest := le_longestRun quote (run + 1) (max longest (run + 1)) text
  exact ⟨hruns, by omega⟩

/-- Two apostrophes right after another one are the end of the text and the closing ones. -/
theorem eq_replicate_of_quotes {quote : Char} {run longest : Nat} (hrun : 1 ≤ run)
    {text rest : List Char} (hruns : longestRun quote run longest text ≤ 2)
    (hquotes : [quote, quote] <+: text ++ quote :: quote :: quote :: rest) :
    ∃ count, count + 1 ≤ 2 ∧ text = List.replicate count quote := by
  match text with
  | [] => exact ⟨0, by decide, rfl⟩
  | char :: text =>
      rw [List.cons_append, List.cons_prefix_cons] at hquotes
      obtain ⟨rfl, hnext⟩ := hquotes
      obtain ⟨hruns, hcount⟩ := longestRun_quote hruns
      match text with
      | [] => exact ⟨1, by decide, rfl⟩
      | char :: text =>
          rw [List.cons_append, List.cons_prefix_cons] at hnext
          obtain ⟨rfl, -⟩ := hnext
          have hthird := (longestRun_quote hruns).2
          omega

theorem scanMultilineLiteral_cons {char : Char} (hchar : isPrintable char = true ∨ char = '\n')
    (hquote : char ≠ '\'') (reversed input : List Char) :
    scanMultilineLiteral reversed (char :: input) =
      scanMultilineLiteral (char :: reversed) input := by
  rcases hchar with hprintable | rfl
  · obtain ⟨hline, hreturn⟩ := ne_of_isPrintable hprintable
    rw [scanMultilineLiteral, if_pos hprintable]
    all_goals simp [hquote, hline, hreturn]
  · rw [scanMultilineLiteral]

/-- **A string between triple apostrophes is read back.** -/
theorem scanMultilineLiteral_append {text : List Char} {run longest : Nat}
    (htext : ∀ char ∈ text, isPrintable char = true ∨ char = '\n')
    (hruns : longestRun '\'' run longest text ≤ 2)
    (reversed : List Char) {rest : List Char} (hrest : rest.head? ≠ some '\'') :
    scanMultilineLiteral reversed (text ++ '\'' :: '\'' :: '\'' :: rest) =
      some (String.ofList (reversed.reverse ++ text), rest) := by
  induction text generalizing run longest reversed with
  | nil => exact scanMultilineLiteral_close (Nat.zero_le 2) reversed hrest
  | cons char text ih =>
      obtain ⟨hchar, hmore⟩ := List.forall_mem_cons.mp htext
      by_cases hquote : char = '\''
      · subst hquote
        obtain ⟨hruns, hcount⟩ := longestRun_quote hruns
        rw [List.cons_append]
        by_cases hend : ['\'', '\''] <+: text ++ '\'' :: '\'' :: '\'' :: rest
        · obtain ⟨count, hcount, rfl⟩ := eq_replicate_of_quotes (by omega) hruns hend
          exact scanMultilineLiteral_close hcount reversed hrest
        · rw [scanMultilineLiteral_quote _ hend, ih hmore hruns, reverse_cons_append]
      · rw [longestRun, if_neg hquote] at hruns
        rw [List.cons_append, scanMultilineLiteral_cons hchar hquote, ih hmore hruns,
          reverse_cons_append]

theorem scanLiteral_append {text : List Char}
    (htext : ∀ char ∈ text, isPrintable char = true ∧ char ≠ '\'')
    (reversed rest : List Char) :
    scanLiteral reversed (text ++ '\'' :: rest) =
      some (String.ofList (reversed.reverse ++ text), rest) := by
  induction text generalizing reversed with
  | nil => rw [List.nil_append, scanLiteral, List.append_nil]
  | cons char text ih =>
      obtain ⟨⟨hprintable, hquote⟩, hmore⟩ := List.forall_mem_cons.mp htext
      rw [List.cons_append, scanLiteral, if_pos hprintable, ih hmore, reverse_cons_append]
      exact hquote

/-! ## Every notation -/

theorem isPrintable_of_not_needsEscape {char : Char} (hchar : needsEscape char = false) :
    isPrintable char = true ∨ char = '\n' := by
  by_cases hline : char = '\n'
  · exact .inr hline
  · left
    simp only [needsEscape, Bool.or_eq_false_iff, decide_eq_false_iff_not] at hchar
    by_cases htab : char = '\t'
    · subst htab
      decide
    · simp_all [isPrintable]

theorem printable_of_fits {text : List Char} (htext : text.any needsEscape = false) :
    ∀ char ∈ text, isPrintable char = true ∨ char = '\n' := by
  intro char hchar
  exact isPrintable_of_not_needsEscape (by simpa using List.any_eq_false.mp htext char hchar)

theorem scan_basic {input : List Char} (hinput : ¬['"', '"'] <+: input) :
    scan ('"' :: input) = scanBasic [] input := by
  rw [scan]
  rintro rest rfl
  exact hinput ⟨rest, rfl⟩

theorem scan_literal {input : List Char} (hinput : ¬['\'', '\''] <+: input) :
    scan ('\'' :: input) = scanLiteral [] input := by
  rw [scan]
  rintro rest rfl
  exact hinput ⟨rest, rfl⟩

theorem not_prefix_of_head? {quote : Char} {rest : List Char} (hrest : rest.head? ≠ some quote) :
    ¬[quote, quote] <+: quote :: rest := by
  rintro ⟨more, hmore⟩
  obtain rfl : quote :: more = rest := by simpa using hmore
  exact hrest rfl

/-- The line end after the opening quotes is dropped, and if there is none, nothing is. -/
theorem dropFirstLineEnd_opening {text input : List Char}
    (hinput : '\n' ∉ text → input.head? ≠ some '\n' ∧ input.head? ≠ some '\r') :
    dropFirstLineEnd (opening text ++ input) = input := by
  unfold opening
  split
  next => rfl
  next hline =>
    have hhead := hinput (by simpa using hline)
    rw [List.nil_append]
    match input with
    | [] => rfl
    | first :: rest =>
        rw [dropFirstLineEnd]
        all_goals simp_all

variable {text rest : List Char}

theorem scan_write_basic (hrest : rest.head? ≠ some '"') :
    scan (Style.basic.write text ++ rest) = some (String.ofList text, rest) := by
  have hinput : ¬['"', '"'] <+: escapeAll false 0 0 text ++ '"' :: rest := by
    cases text with
    | nil => exact not_prefix_of_head? hrest
    | cons char text =>
        have hwritten : Written char (escape false 0 0 char) :=
          written_escape (fun _ => by decide) fun _ => rfl
        obtain ⟨first, more, hescape, hfirst⟩ := hwritten.exists_cons
        rw [escapeAll, hescape, List.cons_append, List.cons_append, List.cons_prefix_cons]
        rintro ⟨rfl, -⟩
        exact hfirst List.mem_cons_self
  rw [Style.write, List.cons_append, List.cons_append, List.append_assoc, List.singleton_append,
    scan_basic hinput, scanBasic_escapeAll, List.reverse_nil, List.nil_append]

theorem scan_write_literal (hfits : Style.literal.fits text = true)
    (hrest : rest.head? ≠ some '\'') :
    scan (Style.literal.write text ++ rest) = some (String.ofList text, rest) := by
  simp only [Style.fits, Bool.and_eq_true, Bool.not_eq_true', List.contains_eq_mem,
    decide_eq_false_iff_not] at hfits
  obtain ⟨⟨hescape, hquote⟩, hline⟩ := hfits
  have htext : ∀ char ∈ text, isPrintable char = true ∧ char ≠ '\'' := by
    intro char hchar
    refine ⟨(printable_of_fits hescape char hchar).resolve_right ?_, ?_⟩
    all_goals
      rintro rfl
      contradiction
  have hinput : ¬['\'', '\''] <+: text ++ '\'' :: rest := by
    cases text with
    | nil => exact not_prefix_of_head? hrest
    | cons char text =>
        rw [List.cons_append, List.cons_prefix_cons]
        exact fun hprefix => (htext char List.mem_cons_self).2 hprefix.1.symm
  rw [Style.write, List.cons_append, List.cons_append, List.append_assoc, List.singleton_append,
    scan_literal hinput, scanLiteral_append htext, List.reverse_nil, List.nil_append]

theorem scan_write_multilineBasic (hrest : rest.head? ≠ some '"') :
    scan (Style.multilineBasic.write text ++ rest) = some (String.ofList text, rest) := by
  have hopening : dropFirstLineEnd (opening text ++
        (escapeAll true 2 0 text ++ '"' :: '"' :: '"' :: rest)) =
      escapeAll true 2 0 text ++ '"' :: '"' :: '"' :: rest := by
    apply dropFirstLineEnd_opening
    intro hline
    cases text with
    | nil => simp [escapeAll]
    | cons char text =>
        by_cases hquote : char = '"'
        · rw [hquote, escapeAll_quote (by decide)]
          simp
        · have hchar : char ≠ '\n' := (List.ne_of_not_mem_cons hline).symm
          have hwritten : Written char (escape true 2 0 char) :=
            written_escape (fun heq => absurd heq hquote) fun heq => absurd heq hchar
          obtain ⟨first, more, hescape, hfirst⟩ := hwritten.exists_cons
          simp_all [escapeAll]
  simp only [Style.write, List.cons_append, List.nil_append, List.append_assoc]
  rw [scan, hopening, scanMultilineBasic_escapeAll text (by decide) [] hrest, List.reverse_nil,
    List.nil_append]

theorem scan_write_multilineLiteral (hfits : Style.multilineLiteral.fits text = true)
    (hrest : rest.head? ≠ some '\'') :
    scan (Style.multilineLiteral.write text ++ rest) = some (String.ofList text, rest) := by
  simp only [Style.fits, Bool.and_eq_true, Bool.not_eq_true', decide_eq_true_eq] at hfits
  have htext := printable_of_fits hfits.1
  have hopening : dropFirstLineEnd (opening text ++ (text ++ '\'' :: '\'' :: '\'' :: rest)) =
      text ++ '\'' :: '\'' :: '\'' :: rest := by
    apply dropFirstLineEnd_opening
    intro hline
    cases text with
    | nil => simp
    | cons char text =>
        have hchar : char ≠ '\n' := (List.ne_of_not_mem_cons hline).symm
        have hprintable := (htext char List.mem_cons_self).resolve_right hchar
        simp [hchar, (ne_of_isPrintable hprintable).2]
  simp only [Style.write, List.cons_append, List.nil_append, List.append_assoc]
  rw [scan, hopening, scanMultilineLiteral_append htext hfits.2 [] hrest, List.reverse_nil,
    List.nil_append]

theorem fits_styleFor (text : List Char) :
    (styleFor text).fits text = true ∨ styleFor text = .basic ∨
      styleFor text = .multilineBasic := by
  unfold styleFor
  split
  next found hfound => exact .inl (List.find?_some hfound)
  next => split <;> simp

/-- **A written string is read back.** -/
theorem scan_string (text : String) {rest : List Char}
    (hrest : rest.head? ≠ some '"' ∧ rest.head? ≠ some '\'') :
    scan (Writer.string text ++ rest) = some (text, rest) := by
  have hstyle := fits_styleFor text.toList
  unfold Writer.string
  cases hfound : styleFor text.toList with
  | basic => rw [scan_write_basic hrest.1, String.ofList_toList]
  | literal =>
      rw [scan_write_literal (by simpa [hfound] using hstyle) hrest.2, String.ofList_toList]
  | multilineBasic => rw [scan_write_multilineBasic hrest.1, String.ofList_toList]
  | multilineLiteral =>
      rw [scan_write_multilineLiteral (by simpa [hfound] using hstyle) hrest.2,
        String.ofList_toList]

end PagedCache.Toml.Text
