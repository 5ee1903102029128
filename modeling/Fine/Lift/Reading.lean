import Fine.Lift.Parser

/-!
# Reading printed tokens

What the lexer and the token parsers of the generated syntax do on printed words, symbols and lists.
-/

namespace Fine.Lift

open Fine.Scan
open Fine.Lookahead (Reads advance reads_pure reads_advance)

variable {α : Type}

variable {word rest : Text}

variable {value : Nat} {mark : Char}

section Lexing

/-- An identifier start, then identifier characters. -/
def isWord : Text → Bool
  | [] => false
  | first :: rest => (first.isAlpha || first == '_') && rest.all isNameCharacter

theorem isWord_cons (spelled : isWord word = true) :
    ∃ first rest, word = first :: rest ∧ (first.isAlpha || first == '_') = true ∧
      ∀ character ∈ rest, isNameCharacter character = true := by
  cases word with
  | nil => cases spelled
  | cons first rest =>
    obtain ⟨start, names⟩ := Bool.and_eq_true_iff.mp spelled
    exact ⟨first, rest, rfl, start, List.all_eq_true.mp names⟩

theorem length_pos_of_isWord (spelled : isWord word = true) : 0 < word.length := by
  obtain ⟨first, rest, rfl, -⟩ := isWord_cons spelled
  simp

theorem isSpace_of_start {first : Char} (start : (first.isAlpha || first == '_') = true) :
    isSpace first = false := by
  simp [isAlpha_iff_code, isSpace, ← Char.toNat_inj] at *
  omega

theorem digit_plain {digit : Char} (isDigit : digit.isDigit = true) :
    isSpace digit = false ∧ (digit.isAlpha || digit == '_') = false := by
  have code := isDigit_iff_code.mp isDigit
  simp [Bool.eq_false_iff, isAlpha_iff_code, isSpace, ← Char.toNat_inj]
  omega

theorem next_word (spelled : isWord word = true) (stops : Stops isNameCharacter rest) :
    next (word ++ rest) = .ok (.identifier word, rest) := by
  obtain ⟨first, others, rfl, start, inside⟩ := isWord_cons spelled
  simp [next, isSpace_of_start start, start, takeWhile_word inside stops,
    dropWhile_word inside stops]

theorem next_starts_word (spelled : isWord word = true) (rest : Text) :
    ∃ text after, next (word ++ rest) = .ok (.identifier text, after) := by
  obtain ⟨first, others, rfl, start, -⟩ := isWord_cons spelled
  simp [next, isSpace_of_start start, start]

theorem next_decimal (stops : Stops Char.isDigit rest) :
    next (decimal value ++ rest) = .ok (.number (decimal value), rest) := by
  obtain ⟨digit, digits, shape, isDigit, others⟩ := decimal_cons value
  simp [next, shape, digit_plain isDigit, isDigit, takeWhile_word others stops,
    dropWhile_word others stops]

theorem next_mark (isMark : isPunctuation mark = true) (rest : Text) :
    next (mark :: rest) = .ok (.punctuation mark, rest) := by
  simp only [isPunctuation, String.reduceToList, List.contains_iff_mem, List.mem_cons,
    List.not_mem_nil, or_false] at isMark
  rcases isMark with rfl | rfl | rfl | rfl | rfl | rfl | rfl | rfl | rfl | rfl <;> rfl

theorem hexValue_hexDigit (small : value < 16) : hexValue (hexDigit value) = some value := by
  revert value
  decide

theorem stringBody_quoteCharacter (character : Char) (rest : Text) :
    stringBody .text (quoteCharacter character ++ rest) =
      (stringBody .text rest).map fun found => (character :: found.1, found.2) := by
  unfold quoteCharacter
  split
  · rfl
  · rfl
  · rfl
  · rfl
  · rfl
  · rename_i notQuote notBackslash _ _ _
    split
    · rename_i control
      have high := hexValue_hexDigit (show character.toNat / 16 < 16 by omega)
      have low := hexValue_hexDigit (show character.toNat % 16 < 16 by omega)
      have zero : hexValue '0' = some 0 := rfl
      have code : character.toNat / 16 * 16 + character.toNat % 16 = character.toNat := by omega
      have byte : ¬ 255 < character.toNat := by omega
      simp [stringBody, high, low, zero, code, byte]
    · rw [List.singleton_append, stringBody, if_neg notQuote, if_neg notBackslash]

theorem next_stringQuote (text rest : Text) :
    next (stringQuote text ++ rest) = .ok (.string text, rest) := by
  have body : stringBody .text (text.flatMap quoteCharacter ++ '"' :: rest) = .ok (text, rest) := by
    induction text with
    | nil => rfl
    | cons character text ih =>
      rw [List.flatMap_cons, List.append_assoc, stringBody_quoteCharacter, ih]
      rfl
  have shape : stringQuote text ++ rest = '"' :: (text.flatMap quoteCharacter ++ '"' :: rest) := by
    simp [stringQuote, jsonQuote]
  have unfolded : next ('"' :: (text.flatMap quoteCharacter ++ '"' :: rest)) =
      (stringBody .text (text.flatMap quoteCharacter ++ '"' :: rest)).map
        fun found => (.string found.1, found.2) := rfl
  rw [shape, unfolded, body]
  rfl

end Lexing

section Tokens

theorem reads_punctuation (isMark : isPunctuation mark = true) (rest : Text) :
    Reads next (punctuation mark) (mark :: rest) rest () := by
  refine Reads.peek (next_mark isMark rest) ?_
  rw [if_pos rfl]
  exact reads_advance (next_mark isMark rest)

theorem reads_identifierOr (message : String) (spelled : isWord word = true)
    (stops : Stops isNameCharacter rest) :
    Reads next (identifierOr message) (word ++ rest) rest word :=
  Reads.peek (next_word spelled stops)
    (Reads.bind (reads_advance (next_word spelled stops)) (reads_pure word rest))

theorem reads_identifier (spelled : isWord word = true) (stops : Stops isNameCharacter rest) :
    Reads next identifier (word ++ rest) rest word :=
  reads_identifierOr _ spelled stops

theorem reads_number (fits : value < 2 ^ 32) (stops : Stops Char.isDigit rest) :
    Reads next number (decimal value ++ rest) rest value := by
  have inRange : ¬ 18446744073709551616 ≤ value := by omega
  have small : value % 4294967296 = value := by omega
  have read : Reads next (advance next >>= fun _ => pure value) (decimal value ++ rest) rest value :=
    Reads.bind (reads_advance (next_decimal stops)) (reads_pure value rest)
  refine Reads.peek (next_decimal stops) ?_
  simpa [ofDecimal_decimal, inRange, small] using read

theorem reads_string (text rest : Text) :
    Reads next string (stringQuote text ++ rest) rest text :=
  Reads.peek (next_stringQuote text rest)
    (Reads.bind (reads_advance (next_stringQuote text rest)) (reads_pure text rest))

theorem reads_isAt {input after : Text} {token : Token}
    (current : next input = .ok (token, after)) :
    Reads next (isAt mark) input input (decide (token = .punctuation mark)) :=
  Reads.peek current (reads_pure _ input)

theorem reads_keyword {word : String} (spelled : isWord word.toList = true)
    (stops : Stops isNameCharacter rest) :
    Reads next (keyword word) (word.toList ++ rest) rest () := by
  refine Reads.bind (reads_identifier spelled stops) ?_
  simpa using reads_pure () rest

/-- A symbol is read as the solver makes it from its printed form. -/
theorem reads_symbol (printed : Symbol) (stops : Stops isNameCharacter rest) :
    Reads next symbol (symbolSyntax printed ++ rest) rest printed.reread := by
  cases printed with
  | null =>
    refine Reads.bind (reads_identifier (show isWord ['n'] = true from rfl) stops) ?_
    exact reads_pure _ rest
  | int value =>
    have shape : symbolSyntax (.int value) ++ rest =
        ['i'] ++ '(' :: (decimal value ++ ')' :: rest) := by simp [symbolSyntax]
    have fits : (value : Nat) < 2 ^ 32 := by omega
    have made : Reads next (symbolValue ['i']) (decimal value ++ ')' :: rest) (')' :: rest)
        (.int value) := by
      refine Reads.bind (reads_number fits (stops_cons.mpr rfl)) ?_
      simpa [mkIntSymbol, ofExcept] using reads_pure (Symbol.int value) (')' :: rest)
    rw [shape]
    refine Reads.bind (reads_identifier rfl (stops_cons.mpr rfl)) ?_
    refine Reads.bind (reads_punctuation rfl _) ?_
    exact Reads.bind made (Reads.bind (reads_punctuation rfl _) (reads_pure _ rest))
  | string value =>
    have shape : symbolSyntax (.string value) ++ rest =
        ['s'] ++ '(' :: (stringQuote value.text ++ ')' :: rest) := by
      simp [symbolSyntax, symbolText]
    have made : Reads next (symbolValue ['s']) (stringQuote value.text ++ ')' :: rest)
        (')' :: rest) (mkStringSymbol value) := by
      refine Reads.bind (reads_string _ _) ?_
      simpa using reads_pure (mkStringSymbol value) (')' :: rest)
    rw [shape]
    refine Reads.bind (reads_identifier rfl (stops_cons.mpr rfl)) ?_
    refine Reads.bind (reads_punctuation rfl _) ?_
    exact Reads.bind made (Reads.bind (reads_punctuation rfl _) (reads_pure _ rest))

end Tokens

section Lists

/-- The text is read as an item of a list. -/
structure ReadsItem (close : Char) (item : Parse α) (text : Text) (value : α) : Prop where
  /-- The item does not start with the closing mark. -/
  starts : ∀ rest, ∃ token after, next (text ++ rest) = .ok (token, after) ∧
    token ≠ .punctuation close
  /-- The item is read up to the comma or the closing mark after it. -/
  reads : ∀ mark rest, mark = ',' ∨ mark = close →
    Reads next item (text ++ mark :: rest) (mark :: rest) value

theorem reads_separator_comma (close : Char) (message : String) (rest : Text) :
    Reads next (separator close message) (',' :: rest) rest () :=
  Reads.bind (reads_isAt (next_mark rfl rest)) (reads_punctuation rfl rest)

variable {close : Char}

theorem reads_separator_close (isClose : isPunctuation close = true) (notComma : close ≠ ',')
    (message : String) (rest : Text) :
    Reads next (separator close message) (close :: rest) (close :: rest) () := by
  refine Reads.bind (reads_isAt (next_mark isClose rest)) ?_
  rw [decide_eq_false (by simpa using notComma)]
  refine Reads.bind (reads_isAt (next_mark isClose rest)) ?_
  rw [decide_eq_true rfl]
  exact reads_pure () _

/-- A list of items is read up to its closing mark. -/
theorem reads_separated (isClose : isPunctuation close = true) (notComma : close ≠ ',')
    {message : String} {item : Parse α} {texts : List Text} {values : List α}
    (each : List.Forall₂ (ReadsItem close item) texts values) {fuel : Nat}
    (enough : texts.length < fuel) (rest : Text) :
    Reads next (separated close message item fuel) (commaSeparated texts ++ close :: rest)
      (close :: rest) values := by
  induction each generalizing fuel with
  | nil =>
    obtain ⟨fuel, rfl⟩ : ∃ less, fuel = less + 1 := ⟨fuel - 1, by simp at enough; omega⟩
    refine Reads.bind (reads_isAt (next_mark isClose rest)) ?_
    rw [decide_eq_true rfl]
    exact reads_pure [] _
  | @cons text value texts values head tail ih =>
    obtain ⟨fuel, rfl⟩ : ∃ less, fuel = less + 1 := ⟨fuel - 1, by simp at enough; omega⟩
    have later := ih (by simpa using enough : texts.length < fuel)
    -- The text after the first item starts with a comma or with the closing mark.
    obtain ⟨mark, after, shape, isMark, separates⟩ : ∃ mark after,
        commaSeparated (text :: texts) ++ close :: rest = text ++ mark :: after ∧
        (mark = ',' ∨ mark = close) ∧
        Reads next (separator close message) (mark :: after)
          (commaSeparated texts ++ close :: rest) () := by
      cases texts with
      | nil => exact ⟨close, rest, by simp [commaSeparated], .inr rfl,
          reads_separator_close isClose notComma message rest⟩
      | cons second texts => exact ⟨',', commaSeparated (second :: texts) ++ close :: rest,
          by simp [commaSeparated, List.intercalate], .inl rfl, reads_separator_comma close message _⟩
    rw [shape]
    obtain ⟨token, input, first, different⟩ := head.starts (mark :: after)
    refine Reads.bind (reads_isAt first) ?_
    rw [decide_eq_false different]
    refine Reads.bind (head.reads mark after isMark) ?_
    refine Reads.bind separates ?_
    exact Reads.bind later (reads_pure _ _)

end Lists

end Fine.Lift
