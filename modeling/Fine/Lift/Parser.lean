import Fine.Library.Lookahead
import Fine.Lift.Printer

/-!
# Reading terms back

The parser looks names up in a registry and keeps a stack of bound variables. The length of the text
bounds its loops.
-/

namespace Fine.Lift

open Fine.Scan (ofDecimal)
open Fine.Lookahead (Parser advance start)

variable {S D α : Type}

/-- Tokens of the generated syntax. -/
inductive Token where
  | identifier (text : Text)
  | number (text : Text)
  | string (text : Text)
  | punctuation (character : Char)
  | finish
deriving DecidableEq

def parseError (message : String) : String := "Fine lift parse error: " ++ message

def isSpace (character : Char) : Bool :=
  character.toNat == 32 || (9 ≤ character.toNat && character.toNat ≤ 13)

/-- Place inside a string literal. -/
inductive StringMode where
  | text
  | escape
  /-- Inside a Unicode escape, with the digits still to come and the value so far. -/
  | unicode (digits value : Nat)

def hexValue (digit : Char) : Option Nat :=
  if '0' ≤ digit ∧ digit ≤ '9' then some (digit.toNat - 48)
  else if 'a' ≤ digit ∧ digit ≤ 'f' then some (digit.toNat - 87)
  else if 'A' ≤ digit ∧ digit ≤ 'F' then some (digit.toNat - 55)
  else none

def escapeValue (escaped : Char) : Option Char :=
  match escaped with
  | '"' => some '"'
  | '\\' => some '\\'
  | 'b' => some (Char.ofNat 8)
  | 'f' => some (Char.ofNat 12)
  | 'n' => some '\n'
  | 'r' => some '\r'
  | 't' => some '\t'
  | _ => none

/-- The bytes of a string, and the text after the closing quote. -/
def stringBody : StringMode → Text → Except String (Text × Text)
  | .text, [] => .error (parseError "unfinished string")
  | .escape, [] => .error (parseError "unfinished string escape")
  | .unicode _ _, [] => .error (parseError "unfinished Unicode escape")
  | .text, character :: rest =>
    if character = '"' then .ok ([], rest)
    else if character = '\\' then stringBody .escape rest
    else (stringBody .text rest).map fun found => (character :: found.1, found.2)
  | .escape, escaped :: rest =>
    if escaped = 'u' then stringBody (.unicode 4 0) rest
    else match escapeValue escaped with
      | some byte => (stringBody .text rest).map fun found => (byte :: found.1, found.2)
      | none => .error (parseError "unsupported string escape")
  | .unicode digits value, digit :: rest =>
    match hexValue digit with
    | none => .error (parseError "invalid Unicode escape")
    | some low =>
      let value := value * 16 + low
      if 1 < digits then stringBody (.unicode (digits - 1) value) rest
      else if 255 < value then
        .error (parseError "generated Fine strings admit byte escapes only")
      else (stringBody .text rest).map fun found => (Char.ofNat value :: found.1, found.2)

def isPunctuation (character : Char) : Bool := "()\x7b\x7d[],:=@".toList.contains character

/-- Next token and the text after it. -/
def next (source : Text) : Except String (Token × Text) :=
  match source.dropWhile isSpace with
  | [] => .ok (.finish, [])
  | character :: rest =>
    if character.isAlpha || character == '_' then
      .ok (.identifier (character :: rest.takeWhile isNameCharacter),
        rest.dropWhile isNameCharacter)
    else if character.isDigit then
      .ok (.number (character :: rest.takeWhile Char.isDigit), rest.dropWhile Char.isDigit)
    else if character = '"' then
      (stringBody .text rest).map fun found => (.string found.1, found.2)
    else if isPunctuation character then .ok (.punctuation character, rest)
    else .error (parseError ("unexpected character `" ++ String.singleton character ++ "`"))

/-- Parsers of the generated syntax. -/
abbrev Parse (α : Type) := Parser Text Token String α

def fail (message : String) : Parse α := throw (parseError message)

/-- The current token is a given punctuation mark. -/
def isAt (character : Char) : Parse Bool := do
  return (← get).current = .punctuation character

/-- Step over a punctuation mark. -/
def punctuation (expected : Char) : Parse Unit := do
  if (← get).current = .punctuation expected then advance next
  else fail ("expected `" ++ String.singleton expected ++ "`")

/-- Step over an identifier, or fail with a message. -/
def identifierOr (message : String) : Parse Text := do
  match (← get).current with
  | .identifier text => do
    advance next
    return text
  | _ => fail message

/-- Step over an identifier. -/
def identifier : Parse Text := identifierOr "expected identifier"

/-- A number, as `stoul` and a cast to `unsigned` read it. -/
def number : Parse Nat := do
  match (← get).current with
  | .number text => do
    if 2 ^ 64 ≤ ofDecimal text then throw "stoul"
    advance next
    return ofDecimal text % 2 ^ 32
  | _ => fail "expected unsigned number"

/-- Step over a string. -/
def string : Parse Text := do
  match (← get).current with
  | .string text => do
    advance next
    return text
  | _ => fail "expected string"

/-- Step over a given word. -/
def keyword (expected : String) : Parse Unit := do
  if (← identifier) ≠ expected.toList then fail ("expected `" ++ expected ++ "`")

/-- `Z3_mk_int_symbol`: no negative numbers. -/
def mkIntSymbol (value : Nat) : Except String Symbol :=
  if bound : value < 2 ^ 31 then .ok (.int ⟨value, bound⟩) else .error "index out of bounds"

/-- A result of the solver or the registry in the parser. -/
def ofExcept (found : Except String α) : Parse α :=
  match found with
  | .ok value => pure value
  | .error message => throw message

def symbolValue (kind : Text) : Parse Symbol :=
  if kind = ['s'] then do
    let text ← string
    return mkStringSymbol (CString.ofText text)
  else if kind = ['i'] then do
    let value ← number
    ofExcept (mkIntSymbol value)
  else fail "unknown symbol encoding"

/-- Read a symbol. -/
def symbol : Parse Symbol := do
  let kind ← identifier
  if kind = ['n'] then return .null
  punctuation '('
  let result ← symbolValue kind
  punctuation ')'
  return result

/-- Step over a comma, or stand at a closing mark. -/
def separator (close : Char) (message : String) : Parse Unit := do
  if ← isAt ',' then punctuation ','
  else if ← isAt close then return ()
  else fail message

/-- Items up to a closing mark, with commas between them. -/
def separated (close : Char) (message : String) (item : Parse α) : Nat → Parse (List α)
  | 0 => throw "out of fuel"
  | fuel + 1 => do
    if ← isAt close then return []
    let first ← item
    separator close message
    let rest ← separated close message item fuel
    return first :: rest

/-- Read one binder: alias, original name and sort. -/
def binder (registry : Registry S D) : Parse (Text × Binder S) := do
  let label ← identifier
  punctuation '@'
  let original ← symbol
  punctuation ':'
  let sort ← ofExcept (registry.sort (← identifier))
  return (label, ⟨original, sort⟩)

/-- `Z3_mk_quantifier_ex`: the body if there are no binders. -/
def mkQuantifierEx (universal : Bool) (weight : Nat) (qid skid : Symbol)
    (patterns : List (List (Term S D))) (noPatterns : List (Term S D)) (binders : List (Binder S))
    (body : Term S D) : Term S D :=
  if binders = [] then body
  else .quantifier universal (Fin.ofNat _ weight) qid skid binders body patterns noPatterns

/-- `Z3_mk_lambda`: binders are required. -/
def mkLambda (binders : List (Binder S)) (body : Term S D) : Except String (Term S D) :=
  if binders = [] then .error "invalid usage" else .ok (.lambda binders body)

/-- Index, from the innermost, and sort of the first variable with an alias. -/
def findBound : List (BoundBinding S) → Text → Option (Nat × S)
  | [], _ => none
  | binding :: bound, name =>
    if binding.label = name then some (bound.length, binding.sort) else findBound bound name

/-- Read a numeral after its word. -/
def numeral (registry : Registry S D) : Parse (Term S D) := do
  punctuation '('
  let value ← string
  punctuation ','
  let sortName ← identifier
  punctuation ')'
  let sort ← ofExcept (registry.sort sortName)
  return .numeral (CString.ofText value) sort

/-- Read the weight and the identifiers of a quantifier. -/
def quantifierHeader : Parse (Nat × Symbol × Symbol) := do
  punctuation '['
  keyword "weight"
  punctuation '='
  let weight ← number
  punctuation ','
  keyword "qid"
  punctuation '='
  let qid ← symbol
  punctuation ','
  keyword "skid"
  punctuation '='
  let skid ← symbol
  punctuation ']'
  return (weight, qid, skid)

/-- Read one pattern with a parser of its terms. -/
def pattern (item : Parse α) (fuel : Nat) : Parse (List α) := do
  punctuation '['
  let terms ← separated ']' "expected `,` or `]` in pattern" item fuel
  punctuation ']'
  return terms

/-- Read the patterns and no-patterns of a quantifier. -/
def quantifierPatterns (item : Parse α) (fuel : Nat) : Parse (List (List α) × List α) := do
  punctuation '['
  keyword "patterns"
  punctuation '='
  punctuation '['
  let patterns ← separated ']' "expected `,` or `]` after pattern" (pattern item fuel) fuel
  punctuation ']'
  punctuation ','
  keyword "nopatterns"
  punctuation '='
  punctuation '['
  let noPatterns ← separated ']' "expected `,` or `]` in no-pattern list" item fuel
  punctuation ']'
  punctuation ']'
  return (patterns, noPatterns)

/-- Build a quantifier or lambda from its parts. -/
def buildQuantifier (kind : Text) (weight : Nat) (qid skid : Symbol) (binders : List (Binder S))
    (body : Term S D) (patterns : List (List (Term S D))) (noPatterns : List (Term S D)) :
    Except String (Term S D) :=
  if kind = "lambda".toList then
    if patterns ≠ [] ∨ noPatterns ≠ [] ∨ weight ≠ 0 then
      .error (parseError "lambda carries unsupported quantifier metadata")
    else mkLambda binders body
  else .ok (mkQuantifierEx (kind = "forall".toList) weight qid skid patterns noPatterns binders body)

/-- Read a quantifier after its word, with the variables in scope. -/
def quantifier (registry : Registry S D)
    (item : List (BoundBinding S) → Parse (Term S D)) (bound : List (BoundBinding S)) (fuel : Nat)
    (kind : Text) : Parse (Term S D) := do
  let (weight, qid, skid) ← quantifierHeader
  punctuation '('
  let binders ← separated ')' "expected `,` or `)` in binder list" (binder registry) fuel
  punctuation ')'
  let scope := bound ++ binders.map fun found => ⟨found.1, found.2.sort⟩
  punctuation '\x7b'
  let body ← item scope
  punctuation '\x7d'
  let (patterns, noPatterns) ← quantifierPatterns (item scope) fuel
  ofExcept (buildQuantifier kind weight qid skid (binders.map (·.2)) body patterns noPatterns)

/-- Read the arguments of an application, if any. -/
def applicationArguments (item : Parse α) (fuel : Nat) : Parse (List α) := do
  if ← isAt '(' then
    punctuation '('
    let arguments ← separated ')' "expected `,` or `)` in application" item fuel
    punctuation ')'
    return arguments
  else return []

/-- Read a term under the variables in scope. -/
def expression (registry : Registry S D) : Nat → List (BoundBinding S) → Parse (Term S D)
  | 0, _ => throw "out of fuel"
  | fuel + 1, bound => do
    let name ← identifierOr "expected expression"
    if name = "numeral".toList then numeral registry
    else if name = "forall".toList ∨ name = "exists".toList ∨ name = "lambda".toList then
      quantifier registry (expression registry fuel) bound fuel name
    else match findBound bound name with
      | some (index, sort) => return .var index sort
      | none => do
        let declaration ← ofExcept (registry.declaration name)
        return .app declaration (← applicationArguments (expression registry fuel bound) fuel)

/-- Read a whole text as a term. -/
def parse (registry : Registry S D) (source : Text) : Except String (Term S D) := do
  let cursor ← start next source
  let (result, cursor) ← (expression registry (source.length + 1) []).run cursor
  if cursor.current = .finish then return result
  else throw (parseError "trailing input")

section Lifting

variable [DecidableEq S] [DecidableEq D] (manager : Manager S D)

/-- Print a term over a fresh registry. -/
def print (term : Term S D) : Except String (Text × Registry S D) := do
  let (text, state) ← (expressionText manager [] term).run ⟨Registry.fresh, 0⟩
  return (text, state.registry)

/-- Print a term and read the text over the printer's registry. -/
def reify (term : Term S D) : Except String (Term S D) := do
  let (text, registry) ← print manager term
  parse registry text

end Lifting

end Fine.Lift
