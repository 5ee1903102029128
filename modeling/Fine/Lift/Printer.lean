import Fine.Lift.Registry

/-!
# Printing terms

Bound variables are named by a counter that never goes back. Only a variable without a binder fails.
-/

namespace Fine.Lift

open Fine.Scan (decimal)

variable {S D : Type}

def hexDigit (value : Nat) : Char :=
  if value < 10 then Char.ofNat (48 + value) else Char.ofNat (87 + value)

def quoteCharacter (character : Char) : Text :=
  match character with
  | '"' => "\\\"".toList
  | '\\' => "\\\\".toList
  | '\n' => "\\n".toList
  | '\r' => "\\r".toList
  | '\t' => "\\t".toList
  | _ =>
    if character.toNat < 32 then
      "\\u00".toList ++ [hexDigit (character.toNat / 16), hexDigit (character.toNat % 16)]
    else [character]

/-- A quoted string, with the escapes of the trace. -/
def jsonQuote (text : Text) : Text := '"' :: text.flatMap quoteCharacter ++ ['"']

/-- Quoted string of the generated syntax. -/
def stringQuote (text : Text) : Text := jsonQuote text

/-- Symbol of the generated syntax. -/
def symbolSyntax : Symbol → Text
  | .null => ['n']
  | .int value => "i(".toList ++ decimal value ++ [')']
  | .string value => "s(".toList ++ stringQuote (symbolText (.string value)) ++ [')']

/-- A bound variable in scope: its alias and its sort. -/
structure BoundBinding (S : Type) where
  /-- Identifier of the variable in the generated text. -/
  label : Text
  sort : S

/-- What the printer carries from one term to the next. -/
structure PrinterState (S D : Type) where
  registry : Registry S D
  /-- Number of the next bound variable. -/
  nextBound : Nat

/-- Printing computations. -/
abbrev Print (S D α : Type) := StateT (PrinterState S D) (Except String) α

/-- Parts in order with a comma between neighbours. -/
def commaSeparated (parts : List Text) : Text := [','].intercalate parts

def boundAlias (number : Nat) : Text := "_v_".toList ++ decimal number

section Printing

variable [DecidableEq S] [DecidableEq D] (manager : Manager S D)

def sortAlias (sort : S) : Print S D Text := fun state =>
  let named := state.registry.sortAlias manager sort
  .ok (named.1, { state with registry := named.2 })

/-- Alias of a declaration in the printer's registry. -/
def declarationAlias (declaration : D) : Print S D Text := fun state =>
  let named := state.registry.declarationAlias manager declaration
  .ok (named.1, { state with registry := named.2 })

def freshBound : Print S D Text := fun state =>
  .ok (boundAlias state.nextBound, { state with nextBound := state.nextBound + 1 })

/-- Variable in scope, counted from the innermost binder. -/
def boundText (bound : List (BoundBinding S)) (index : Nat) : Print S D Text :=
  match bound.reverse[index]? with
  | some binding => pure binding.label
  | none => throw "Fine lift encountered a free de Bruijn variable"

/-- Text of binders and the variables they bring. -/
def binderTexts : List (Binder S) → Print S D (List Text × List (BoundBinding S))
  | [] => pure ([], [])
  | binder :: binders => do
    let label ← freshBound
    let sort ← sortAlias manager binder.sort
    let (texts, bindings) ← binderTexts binders
    return ((label ++ '@' :: symbolSyntax binder.name ++ ':' :: sort) :: texts,
      ⟨label, binder.sort⟩ :: bindings)

/-- Text of a quantifier or lambda from that of its parts. -/
def quantifierForm (kind : Text) (weight : Nat) (qid skid : Symbol) (binders : List Text)
    (body : Text) (patterns noPatterns : List Text) : Text :=
  kind ++ "[weight=".toList ++ decimal weight ++ ",qid=".toList ++ symbolSyntax qid ++
    ",skid=".toList ++ symbolSyntax skid ++ ']' :: '(' :: commaSeparated binders ++
    ')' :: '\x7b' :: body ++ '\x7d' :: "[patterns=[".toList ++ commaSeparated patterns ++
    "],nopatterns=[".toList ++ commaSeparated noPatterns ++ "]]".toList

mutual

/-- Text of a term under the variables in scope. -/
def expressionText (bound : List (BoundBinding S)) : Term S D → Print S D Text
  | .numeral text sort => do
    return "numeral(".toList ++ stringQuote text.text ++ ',' :: (← sortAlias manager sort) ++ [')']
  | .app declaration arguments => do
    let label ← declarationAlias manager declaration
    let parts ← expressionTexts bound arguments
    return if arguments.isEmpty then label else label ++ '(' :: commaSeparated parts ++ [')']
  | .var index _ => boundText bound index
  | .quantifier universal weight qid skid binders body patterns noPatterns => do
    let (binderParts, bindings) ← binderTexts manager binders
    let scope := bound ++ bindings
    let bodyPart ← expressionText scope body
    let patternParts ← patternTexts scope patterns
    let noPatternParts ← expressionTexts scope noPatterns
    return quantifierForm (if universal then "forall".toList else "exists".toList) weight qid skid
      binderParts bodyPart patternParts noPatternParts
  | .lambda binders body => do
    let (binderParts, bindings) ← binderTexts manager binders
    let bodyPart ← expressionText (bound ++ bindings) body
    return quantifierForm "lambda".toList 0 .null .null binderParts bodyPart [] []

/-- Texts of terms in order. -/
def expressionTexts (bound : List (BoundBinding S)) : List (Term S D) → Print S D (List Text)
  | [] => pure []
  | term :: terms => do
    let head ← expressionText bound term
    let tail ← expressionTexts bound terms
    return head :: tail

/-- Texts of patterns in order. -/
def patternTexts (bound : List (BoundBinding S)) : List (List (Term S D)) → Print S D (List Text)
  | [] => pure []
  | pattern :: patterns => do
    let terms ← expressionTexts bound pattern
    let tail ← patternTexts bound patterns
    return ('[' :: commaSeparated terms ++ [']']) :: tail

end

end Printing

end Fine.Lift
