import Mathlib

/-!
# Parsers with one token of lookahead

`Reads` says that a parser started at one input returns a value and stands at another. A lexer's
refusal where a parser stops is that of what comes next.
-/

namespace Fine.Lookahead

variable {ι τ ε α β : Type}

/-- The current token and the input after it. -/
structure Cursor (ι τ : Type) where
  current : τ
  input : ι

/-- A lexer reads one token from the front of its input. -/
abbrev Lexer (ι τ ε : Type) := ι → Except ε (τ × ι)

/-- A parser moves a cursor or fails. -/
abbrev Parser (ι τ ε α : Type) := StateT (Cursor ι τ) (Except ε) α

def start (next : Lexer ι τ ε) (input : ι) : Except ε (Cursor ι τ) :=
  (next input).map fun found => ⟨found.1, found.2⟩

/-- Step to the next token. -/
def advance (next : Lexer ι τ ε) : Parser ι τ ε Unit := fun cursor =>
  (start next cursor.input).map fun moved => ((), moved)

/-- Run a parser from the first token of an input. -/
def runAt (next : Lexer ι τ ε) (parser : Parser ι τ ε α) (input : ι) :
    Except ε (α × Cursor ι τ) :=
  start next input >>= parser.run

/-- From one input the parser returns the value and stands at another. -/
def Reads (next : Lexer ι τ ε) (parser : Parser ι τ ε α) (input rest : ι) (value : α) : Prop :=
  runAt next parser input = (start next rest).map fun cursor => (value, cursor)

variable {next : Lexer ι τ ε}

theorem reads_pure (value : α) (input : ι) :
    Reads next (pure value : Parser ι τ ε α) input input value := by
  unfold Reads runAt
  cases start next input <;> rfl

variable {input rest : ι}

theorem Reads.bind {first : Parser ι τ ε α} {second : α → Parser ι τ ε β} {middle : ι} {value : α}
    {result : β} (head : Reads next first input middle value)
    (tail : Reads next (second value) middle rest result) :
    Reads next (first >>= second) input rest result := by
  unfold Reads runAt at *
  rw [← tail]
  have split : (start next input >>= (first >>= second).run) =
      (start next input >>= first.run) >>= fun found => (second found.1).run found.2 := by
    cases start next input <;> rfl
  rw [split, head]
  cases start next middle <;> rfl

theorem Reads.peek {parser : Cursor ι τ → Parser ι τ ε α} {after : ι} {token : τ} {value : α}
    (current : next input = .ok (token, after))
    (tail : Reads next (parser ⟨token, after⟩) input rest value) :
    Reads next (get >>= parser) input rest value := by
  unfold Reads runAt at *
  rw [← tail]
  simp only [start, current]
  rfl

theorem reads_advance {token : τ} (current : next input = .ok (token, rest)) :
    Reads next (advance next) input rest () := by
  unfold Reads runAt
  rw [start, current]
  rfl

end Fine.Lookahead
