import Fine.Syntax.Grammar

/-!
# Lexing again

A token depends on one character behind it at most, so tokens are read alike in every text that
keeps them.
-/

namespace Fine.Syntax

open List

def opens (kind : TokenKind) : Bool := kind == .leftParen || kind == .fatArrow

variable {text rest : SourceText}

variable {position : SourcePosition} {other blank : SourceText} {character : Char}
  {kind : TokenKind} {found : Found} {token : Token} {lexemes : List Lexeme}

/-- Skipping is the same when another solid character follows the blanks. -/
theorem skip_congr {comment : Bool} {other : SourcePosition} {first second : Char}
    (stops : (skipSpaceAndComments comment position (blank ++ first :: text)).rest = first :: text)
    (solid : isBlank second = false) (slash : first ≠ '/' ∧ second ≠ '/') (text' : SourceText) :
    (skipSpaceAndComments comment other (blank ++ second :: text')).rest = second :: text' := by
  induction blank generalizing comment position other with
  | nil =>
    have tight : ∀ mode place, (skipSpaceAndComments mode place text).rest ≠ first :: text := by
      intro mode place same
      obtain ⟨skipped, split, _⟩ := skip_split mode place text
      have lengths := congrArg List.length split
      rw [same, length_append, length_cons] at lengths
      omega
    rw [nil_append, skipSpaceAndComments] at stops ⊢
    cases comment with
    | true => exact absurd stops (tight _ _)
    | false => simp [solid, slash.2]
  | cons character blank ih =>
    have longer : character :: (blank ++ first :: text) ≠ first :: text := by
      intro same
      have lengths := congrArg List.length same
      simp only [length_cons, length_append] at lengths
      omega
    have next : ((blank ++ second :: text').head? = some '/') ↔
        (blank ++ first :: text).head? = some '/' := by
      cases blank with
      | nil => simp [slash.1, slash.2]
      | cons => simp
    rw [cons_append, skipSpaceAndComments] at stops ⊢
    split
    · rename_i inside
      rw [if_pos inside] at stops
      exact ih stops
    · rename_i outside
      rw [if_neg outside] at stops
      split
      · rename_i space
        rw [if_pos space] at stops
        exact ih stops
      · rename_i space
        rw [if_neg space] at stops
        by_cases opened : character = '/' ∧ (blank ++ first :: text).head? = some '/'
        · rw [if_pos opened] at stops
          rw [if_pos ⟨opened.1, next.mpr opened.2⟩]
          exact ih stops
        · rw [if_neg opened] at stops
          exact absurd stops longer

theorem stops_of_head {accepts : Char → Bool} (stops : Scan.Stops accepts text)
    (same : other.head? = text.head?) : Scan.Stops accepts other := by
  intro head found
  rw [same] at found
  exact stops head found

theorem stops_dropWhile (accepts : Char → Bool) (text : SourceText) :
    Scan.Stops accepts (text.dropWhile accepts) := by
  intro head found
  cases rest : text.dropWhile accepts with
  | nil =>
    rw [rest] at found
    cases found
  | cons first later =>
    rw [rest] at found
    cases found
    have outside := head_dropWhile_not accepts (l := text) (by rw [rest]; simp)
    simpa [rest] using outside

theorem doubleSymbol_of_opens (known : singleSymbol character = some kind)
    (opening : opens kind = true) (second : Char) : doubleSymbol character second = none := by
  unfold singleSymbol at known
  split at known <;> cases known <;> first | rfl | cases opening

/-- A symbol depends on the next character at most. -/
theorem symbol_congr {tail : SourceText} (read : symbol character tail = some found)
    (behind : rest.head? = found.rest.head? ∨ opens found.kind = true) :
    ∃ later, found.text = character :: later ∧
      symbol character (later ++ rest) = some ⟨found.kind, found.text, rest⟩ := by
  have single : ∀ kind, singleSymbol character = some kind →
      (∀ second ∈ rest.head?, doubleSymbol character second = none) →
      symbol character rest = some ⟨kind, [character], rest⟩ := by
    intro kind known alone
    cases rest with
    | nil => simp [symbol, known]
    | cons second rest =>
      have other : doubleSymbol character second = none := alone second (by simp)
      simp [symbol, known, other]
  cases tail with
  | nil =>
    obtain ⟨kind, known, rfl⟩ := Option.map_eq_some_iff.mp read
    refine ⟨[], rfl, single kind known ?_⟩
    intro second member
    rcases behind with same | opening
    · rw [same] at member
      cases member
    · exact doubleSymbol_of_opens known opening second
  | cons second tail =>
    simp only [symbol] at read
    split at read
    · rename_i kind known
      cases read
      exact ⟨[second], rfl, by simp [symbol, known]⟩
    · rename_i other
      obtain ⟨kind, known, rfl⟩ := Option.map_eq_some_iff.mp read
      refine ⟨[], rfl, single kind known ?_⟩
      intro second' member
      rcases behind with same | opening
      · rw [same] at member
        cases member
        exact other
      · exact doubleSymbol_of_opens known opening second'

/-- A token depends on the next character at most, and an opening one not even on that. -/
theorem scan_congr (read : scan text = some found) (more : found.kind ≠ .eof)
    (behind : rest.head? = found.rest.head? ∨ opens found.kind = true) :
    scan (found.text ++ rest) = some ⟨found.kind, found.text, rest⟩ := by
  unfold scan at read
  split at read
  · cases read
    exact absurd rfl more
  · rename_i character tail
    split at read
    · rename_i start
      cases read
      have same : rest.head? = (tail.dropWhile isNameContinue).head? := by
        apply behind.resolve_right
        simp only [opens, Bool.or_eq_true, beq_iff_eq, not_or]
        exact ⟨keyword_ne (by decide) (by decide) _, keyword_ne (by decide) (by decide) _⟩
      have inside : ∀ element ∈ tail.takeWhile isNameContinue, isNameContinue element = true :=
        fun element member => mem_takeWhile_imp member
      have stops := stops_of_head (stops_dropWhile isNameContinue tail) same
      simp only [cons_append, scan, start, ↓reduceIte, Scan.takeWhile_word inside stops,
        Scan.dropWhile_word inside stops]
    · rename_i start
      split at read
      · rename_i digit
        cases read
        have same : rest.head? = (tail.dropWhile Char.isDigit).head? :=
          behind.resolve_right (by simp [opens])
        have inside : ∀ element ∈ tail.takeWhile Char.isDigit, element.isDigit = true :=
          fun element member => mem_takeWhile_imp member
        have stops := stops_of_head (stops_dropWhile Char.isDigit tail) same
        simp only [cons_append, scan, start, digit, Bool.false_eq_true, ↓reduceIte,
          Scan.takeWhile_word inside stops, Scan.dropWhile_word inside stops]
      · rename_i digit
        obtain ⟨later, shape, again⟩ := symbol_congr read behind
        rw [shape] at again ⊢
        simp only [cons_append, scan, start, digit, Bool.false_eq_true, ↓reduceIte]
        exact again

theorem next_ok {scanner : Scanner} (read : next ⟨position, text⟩ = .ok (token, scanner)) : ∃ blank,
      text = blank ++ (token.text ++ scanner.rest) ∧
      skipped text = token.text ++ scanner.rest ∧
      scan (token.text ++ scanner.rest) = some ⟨token.kind, token.text, scanner.rest⟩ ∧
      token.span.start.offset = position.offset + blank.length ∧
      token.span.stop = scanner.position ∧
      scanner.position.offset = token.span.start.offset + token.text.length ∧
      token.span = ⟨position.after blank, (position.after blank).after token.text⟩ := by
  unfold next at read
  simp only at read
  split at read
  · rename_i found known
    cases read
    obtain ⟨blank, split, place⟩ := skip_split false position text
    obtain ⟨front, -⟩ := scan_split known
    refine ⟨blank, ?_, ?_, ?_, ?_, rfl, ?_, by rw [← place]⟩
    · rw [← front]
      exact split
    · rw [← front]
      exact skip_rest _ _ _ _
    · rw [← front]
      exact known
    · simp only
      rw [place, SourcePosition.after_offset]
    · simp
  · cases read

def Increasing : Nat → List Token → Prop
  | _, [] => True
  | cursor, token :: tokens => cursor ≤ token.span.start.offset ∧
      token.span.start.offset + token.text.length = token.span.stop.offset ∧
      Increasing token.span.stop.offset tokens

theorem lexFrom_increasing (fuel : Nat) (scanner : Scanner) :
    Increasing scanner.position.offset (lexFrom fuel scanner).tokens := by
  induction fuel generalizing scanner with
  | zero => trivial
  | succ fuel ih =>
    unfold lexFrom
    cases read : next scanner with
    | error refusal => trivial
    | ok found =>
      obtain ⟨token, after⟩ := found
      obtain ⟨blank, -, -, -, start, stop, place, -⟩ := next_ok read
      have here : scanner.position.offset ≤ token.span.start.offset ∧
          token.span.start.offset + token.text.length = token.span.stop.offset := by
        rw [stop, place]
        omega
      simp only
      split
      · exact ⟨here.1, here.2, trivial⟩
      · refine ⟨here.1, here.2, ?_⟩
        rw [stop]
        exact ih after

theorem Increasing.start_le {cursor : Nat} {tokens : List Token}
    (increasing : Increasing cursor tokens) :
    ∀ token ∈ tokens, cursor ≤ token.span.start.offset := by
  induction tokens generalizing cursor with
  | nil => simp
  | cons first tokens ih =>
    intro token member
    obtain ⟨after, length, rest⟩ := increasing
    rcases mem_cons.mp member with rfl | member
    · exact after
    · have := ih rest token member
      omega

theorem scan_solid (read : scan (character :: text) = some found) :
    isBlank character = false ∧ character ≠ '/' := by
  unfold scan at read
  simp only at read
  split at read
  · exact isBlank_of_solid (.inl ‹_›)
  · split at read
    · exact isBlank_of_solid (.inr ‹_›)
    · have single : ∀ kind, singleSymbol character = some kind →
          isBlank character = false ∧ character ≠ '/' := by
        intro kind known
        unfold singleSymbol at known
        split at known <;> cases known <;> decide
      cases text with
      | nil =>
        obtain ⟨kind, known, _⟩ := Option.map_eq_some_iff.mp read
        exact single kind known
      | cons second text =>
        simp only [symbol] at read
        split at read
        · rename_i kind known
          unfold doubleSymbol at known
          split at known <;> cases known <;> decide
        · obtain ⟨kind, known, _⟩ := Option.map_eq_some_iff.mp read
          exact single kind known

theorem Lexes.skipTo (read : Lexes text lexemes rest) (some : lexemes ≠ [])
    (same : skipped other = skipped text) : Lexes other lexemes rest := by
  cases read with
  | done => exact absurd rfl some
  | token read more tail => exact .token (by rw [same]; exact read) more tail

theorem Lexes.keep {behind behind' : SourceText}
    (skip : skipped (blank ++ (text ++ behind)) = text ++ behind)
    (scanned : scan (text ++ behind) = some ⟨kind, text, behind⟩) (more : kind ≠ .eof)
    (same : behind'.head? = behind.head? ∨ opens kind = true) (tail : Lexes behind' lexemes rest) :
    Lexes (blank ++ (text ++ behind')) ((kind, text) :: lexemes) rest := by
  have nonempty := (scan_split scanned).2 more
  have again := scan_congr scanned more same
  cases text with
  | nil => exact absurd rfl nonempty
  | cons first later =>
    have solid := scan_solid scanned
    have skip' : skipped (blank ++ (first :: later ++ behind')) = first :: later ++ behind' :=
      skip_congr skip solid.1 ⟨solid.2, solid.2⟩ (later ++ behind')
    have read : scan (skipped (blank ++ (first :: later ++ behind'))) =
        some ⟨kind, first :: later, behind'⟩ := by
      rw [skip']
      exact again
    exact .token read more tail

theorem next_shorter {after : Scanner} (read : next ⟨position, text⟩ = .ok (token, after))
    (more : token.kind ≠ .eof) : after.rest.length < text.length := by
  obtain ⟨blank, split, -, scanned, -⟩ := next_ok read
  have positive := length_pos_iff.mpr ((scan_split scanned).2 more)
  have lengths := congrArg List.length split
  simp only [length_append] at lengths positive
  omega

theorem lexFrom_solid (fuel : Nat) (scanner : Scanner) :
    ∀ token ∈ (lexFrom fuel scanner).tokens, token.kind ≠ .eof → token.text ≠ [] := by
  induction fuel generalizing scanner with
  | zero => simp [lexFrom]
  | succ fuel ih =>
    unfold lexFrom
    cases read : next scanner with
    | error refusal => simp
    | ok found =>
      obtain ⟨token, after⟩ := found
      obtain ⟨blank, -, -, scanned, -⟩ := next_ok read
      simp only
      split
      · intro other member more
        rw [mem_singleton.mp member] at more
        contradiction
      · intro other member more
        rcases mem_cons.mp member with rfl | member
        · exact (scan_split scanned).2 more
        · exact ih after other member more

/-- A token that stands nowhere, before the first one. -/
def noToken : Token := ⟨.eof, {}, [], by decide, by decide⟩

end Fine.Syntax
