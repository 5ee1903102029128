import Fine.Library.Fresh
import Fine.Library.Scan
import Fine.Lift.Term

/-!
# Aliases of sorts and declarations

Sorts and declarations are named by sanitized text, made unique by a counting suffix. Aliases are
identifiers, and no two bindings share one.
-/

namespace Fine.Lift

open List

open Fine.Scan (decimal decimal_digits decimal_injective)

variable {S D : Type}

/-- Declaration kinds with a word in the generated syntax. -/
inductive DeclKind where
  | opTrue | opFalse | opEq | opDistinct | opIte | opAnd | opOr | opIff | opXor | opNot | opImplies
  | opOeq | opLe | opGe | opLt | opGt | opAdd | opSub | opUminus | opMul | opDiv | opIdiv | opRem
  | opMod | opToReal | opToInt | opIsInt | opPower | opAbs | opStore | opSelect | opConstArray
  | opArrayDefault
  | other (code : Nat)
deriving DecidableEq

/-- Parameters of a declaration, with the solver's text if there is one. -/
inductive Parameter (S D : Type) where
  | int (value : Int)
  | double (text : Text)
  | rational (text : Text)
  | symbol (value : Symbol)
  | sort (value : S)
  | ast (text : Text)
  | funcDecl (value : D)
  | internal
  | zstring

/-- What the lift reads of sorts and declarations. -/
structure Manager (S D : Type) where
  sortText : S → Text
  name : D → Symbol
  kind : D → DeclKind
  parameters : D → List (Parameter S D)
  /-- Argument sorts of a declaration. -/
  domain : D → List S
  range : D → S

/-- Readable text of a symbol. -/
def symbolText : Symbol → Text
  | .null => "<null>".toList
  | .int value => decimal value
  | .string value => value.text

def isNameCharacter (character : Char) : Bool := character.isAlphanum || character == '_'

/-- Other characters become underscores, never two in a row. -/
def sanitizeBody : Text → Bool → Text
  | [], _ => []
  | character :: rest, previousUnderscore =>
    if isNameCharacter character then
      character :: sanitizeBody rest (character == '_')
    else if previousUnderscore then sanitizeBody rest true
    else '_' :: sanitizeBody rest true

/-- Identifier text made from any, after a fixed lead. -/
def sanitize (text lead : Text) : Text :=
  let body := (sanitizeBody text (lead.getLast? == some '_')).reverse
  let trimmed := (body.dropWhile (· == '_')).reverse
  if trimmed = [] then lead ++ "anonymous".toList else lead ++ trimmed

/-- Word of the generated syntax for a declaration. -/
def declarationBase (kind : DeclKind) (symbol : Text) : Text :=
  match kind with
  | .opTrue => "true".toList
  | .opFalse => "false".toList
  | .opEq => "equal".toList
  | .opDistinct => "distinct".toList
  | .opIte => "if".toList
  | .opAnd => "and".toList
  | .opOr => "or".toList
  | .opIff => "iff".toList
  | .opXor => "xor".toList
  | .opNot => "not".toList
  | .opImplies => "implies".toList
  | .opOeq => "observational_equal".toList
  | .opLe => "less_equal".toList
  | .opGe => "greater_equal".toList
  | .opLt => "less".toList
  | .opGt => "greater".toList
  | .opAdd => "add".toList
  | .opSub => "subtract".toList
  | .opUminus => "negate".toList
  | .opMul => "multiply".toList
  | .opDiv => "divide".toList
  | .opIdiv => "integer_divide".toList
  | .opRem => "remainder".toList
  | .opMod => "modulo".toList
  | .opToReal => "to_real".toList
  | .opToInt => "to_int".toList
  | .opIsInt => "is_int".toList
  | .opPower => "power".toList
  | .opAbs => "absolute".toList
  | .opStore => "store".toList
  | .opSelect => "select".toList
  | .opConstArray => "constant_array".toList
  | .opArrayDefault => "array_default".toList
  | .other _ => sanitize symbol []

def signedDecimal : Int → Text
  | .ofNat value => decimal value
  | .negSucc value => '-' :: decimal (value + 1)

def parameterText (manager : Manager S D) : Parameter S D → Text
  | .int value => signedDecimal value
  | .double text => text
  | .rational text => text
  | .symbol value => symbolText value
  | .sort value => manager.sortText value
  | .ast text => text
  | .funcDecl value => symbolText (manager.name value)
  | .internal => "internal".toList
  | .zstring => "zstring".toList

/-- Texts of all parameters of a declaration. -/
def declarationParameters (manager : Manager S D) (declaration : D) : List Text :=
  (manager.parameters declaration).map (parameterText manager)

/-- After a lead, sanitized text is identifier characters. -/
theorem sanitizeBody_names (text : Text) (previous : Bool) :
    ∀ character ∈ sanitizeBody text previous, isNameCharacter character = true := by
  induction text generalizing previous with
  | nil => simp [sanitizeBody]
  | cons head rest ih =>
    intro character member
    unfold sanitizeBody at member
    split at member
    · rename_i accepted
      rcases mem_cons.mp member with rfl | member
      · exact accepted
      · exact ih _ character member
    · split at member
      · exact ih _ character member
      · rcases mem_cons.mp member with rfl | member
        · rfl
        · exact ih _ character member

theorem sanitize_shape (text lead : Text) :
    ∃ body, sanitize text lead = lead ++ body ∧
      ∀ character ∈ body, isNameCharacter character = true := by
  simp only [sanitize]
  split
  · exact ⟨_, rfl, all_eq_true.mp rfl⟩
  · refine ⟨_, rfl, fun character member => ?_⟩
    have inside := (dropWhile_suffix _).subset (mem_reverse.mp member)
    exact sanitizeBody_names text _ character (mem_reverse.mp inside)

/-- A lead of the kind followed by identifier characters. -/
def IsAlias (lead label : Text) : Prop :=
  ∃ body, label = lead ++ body ∧ ∀ character ∈ body, isNameCharacter character = true

/-- One entry of an alias table. -/
structure Binding (α : Type) where
  /-- Identifier of the generated syntax. -/
  label : Text
  /-- Sort or declaration it stands for. -/
  value : α

/-- Bindings in order. No alias stands for two of them. -/
structure Table (lead : Text) (α : Type) where
  bindings : List (Binding α)
  /-- No two bindings share an alias. -/
  distinct : (bindings.map (·.label)).Nodup
  /-- Every alias is of the table's kind. -/
  named : ∀ binding ∈ bindings, IsAlias lead binding.label

namespace Table

variable {lead : Text} {α : Type}

def empty : Table lead α := ⟨[], by simp, by simp⟩

def aliases (table : Table lead α) : List Text := table.bindings.map (·.label)

/-- Append a binding with an alias that is not in use. -/
def add (table : Table lead α) (label : Text) (value : α) (fresh : label ∉ table.aliases)
    (named : IsAlias lead label) : Table lead α where
  bindings := table.bindings ++ [⟨label, value⟩]
  distinct := by
    rw [map_append, nodup_append]
    refine ⟨table.distinct, by simp, ?_⟩
    intro left inLeft right inRight same
    obtain rfl : right = label := by simpa using inRight
    exact fresh (same ▸ inLeft)
  named binding member := by
    rcases mem_append.mp member with member | member
    · exact table.named binding member
    · obtain rfl := mem_singleton.mp member
      exact named

def aliasOf [DecidableEq α] (table : Table lead α) (value : α) : Option Text :=
  (table.bindings.find? (·.value = value)).map (·.label)

/-- The value of an alias. -/
def lookup (table : Table lead α) (label : Text) : Option α :=
  (table.bindings.find? (·.label = label)).map (·.value)

/-- A later table keeps the bindings of an earlier one. -/
def Extends (earlier later : Table lead α) : Prop := earlier.bindings <+: later.bindings

variable {table : Table lead α} {label : Text}

theorem mem_of_aliasOf [DecidableEq α] {value : α} (found : table.aliasOf value = some label) :
    ⟨label, value⟩ ∈ table.bindings := by
  obtain ⟨binding, located, rfl⟩ := Option.map_eq_some_iff.mp found
  have same : binding.value = value := by simpa using find?_some located
  exact same ▸ mem_of_find?_eq_some located

theorem eq_of_alias {left right : Binding α} (inLeft : left ∈ table.bindings)
    (inRight : right ∈ table.bindings) (same : left.label = right.label) : left = right :=
  inj_on_of_nodup_map table.distinct inLeft inRight same

theorem lookup_of_mem {earlier later : Table lead α} (kept : earlier.Extends later) {value : α}
    (member : ⟨label, value⟩ ∈ earlier.bindings) : later.lookup label = some value := by
  have inLater : ⟨label, value⟩ ∈ later.bindings := kept.subset member
  cases located : later.bindings.find? (·.label = label) with
  | none =>
    have absent := find?_eq_none.mp located _ inLater
    simp at absent
  | some binding =>
    have same : binding.label = label := by simpa using find?_some located
    obtain rfl := eq_of_alias (mem_of_find?_eq_some located) inLater same
    simp [lookup, located]

end Table

/-- Lead of sort aliases. -/
def sortLead : Text := "_s_".toList

def declarationLead : Text := "_d_".toList

/-- The aliases handed out so far. -/
structure Registry (S D : Type) where
  sorts : Table sortLead S
  declarations : Table declarationLead D

namespace Registry

def fresh : Registry S D := ⟨Table.empty, Table.empty⟩

def aliases (registry : Registry S D) : List Text :=
  registry.sorts.aliases ++ registry.declarations.aliases

/-- The base, then the base with suffixes 1, 2 and so on. -/
def candidate (base : Text) (suffix : Nat) : Text :=
  if suffix = 0 then base else base ++ '_' :: decimal suffix

theorem candidate_injective (base : Text) : Function.Injective (candidate base) := by
  intro left right same
  unfold candidate at same
  split at same <;> split at same
  · omega
  · simp at same
  · simp at same
  · exact decimal_injective (by simpa using same)

/-- First candidate that is not in use. -/
def unique (registry : Registry S D) (base : Text) : Text :=
  Fresh.search registry.aliases (candidate base) registry.aliases.length 0

theorem unique_fresh (registry : Registry S D) (base : Text) :
    registry.unique base ∉ registry.aliases :=
  Fresh.search_fresh (candidate_injective base) 0

theorem unique_named (registry : Registry S D) (text lead : Text) :
    IsAlias lead (registry.unique (sanitize text lead)) := by
  obtain ⟨suffix, -, chosen⟩ := Fresh.search_eq_candidate registry.aliases
    (candidate (sanitize text lead)) registry.aliases.length 0
  obtain ⟨body, shape, names⟩ := sanitize_shape text lead
  rw [unique, chosen, candidate, shape]
  split
  · exact ⟨body, rfl, names⟩
  · refine ⟨body ++ '_' :: decimal suffix, by simp, fun character member => ?_⟩
    simp only [mem_append, mem_cons] at member
    rcases member with member | rfl | member
    · exact names character member
    · rfl
    · simp [isNameCharacter, Char.isAlphanum, decimal_digits suffix character member]

/-- A later registry keeps the bindings of an earlier one. -/
structure Extends (earlier later : Registry S D) : Prop where
  sorts : earlier.sorts.Extends later.sorts
  declarations : earlier.declarations.Extends later.declarations

theorem Extends.refl (registry : Registry S D) : registry.Extends registry :=
  ⟨prefix_refl _, prefix_refl _⟩

theorem Extends.trans {first second third : Registry S D} (left : first.Extends second)
    (right : second.Extends third) : first.Extends third :=
  ⟨left.sorts.trans right.sorts, left.declarations.trans right.declarations⟩

def sort (registry : Registry S D) (label : Text) : Except String S :=
  match registry.sorts.lookup label with
  | some sort => .ok sort
  | none => .error ("unknown Fine lift sort alias `" ++ String.ofList label ++ "`")

/-- Declaration of an alias in the generated text. -/
def declaration (registry : Registry S D) (label : Text) : Except String D :=
  match registry.declarations.lookup label with
  | some declaration => .ok declaration
  | none => .error ("unknown Fine lift declaration alias `" ++ String.ofList label ++ "`")

variable [DecidableEq S]

/-- Alias of a sort, registered at its first use. -/
def sortAlias (manager : Manager S D) (registry : Registry S D) (sort : S) :
    Text × Registry S D :=
  match registry.sorts.aliasOf sort with
  | some label => (label, registry)
  | none =>
    let label := registry.unique (sanitize (manager.sortText sort) sortLead)
    (label, { registry with
      sorts := registry.sorts.add label sort
        (fun used => registry.unique_fresh _ (mem_append_left _ used))
        (registry.unique_named _ _) })

theorem extends_sortAlias (manager : Manager S D) (registry : Registry S D) (sort : S) :
    registry.Extends (sortAlias manager registry sort).2 := by
  unfold sortAlias
  split
  · exact .refl registry
  · exact ⟨prefix_append _ _, prefix_refl _⟩

theorem sortAlias_bound (manager : Manager S D) (registry : Registry S D) (sort : S) :
    ⟨(sortAlias manager registry sort).1, sort⟩ ∈
      (sortAlias manager registry sort).2.sorts.bindings := by
  unfold sortAlias
  split
  · rename_i label found
    exact Table.mem_of_aliasOf found
  · simp [Table.add]

variable {later registry : Registry S D} {manager : Manager S D}

theorem sort_sortAlias {sort : S} (kept : (sortAlias manager registry sort).2.Extends later) :
    later.sort (sortAlias manager registry sort).1 = .ok sort := by
  rw [Registry.sort, Table.lookup_of_mem kept.sorts (sortAlias_bound manager registry sort)]

theorem sortAlias_named (manager : Manager S D) (registry : Registry S D) (sort : S) :
    IsAlias sortLead (sortAlias manager registry sort).1 :=
  Table.named _ _ (sortAlias_bound manager registry sort)

/-- The text of an alias: its word and its parameters. -/
def declarationText (manager : Manager S D) (declaration : D) : Text :=
  (declarationParameters manager declaration).foldl
    (fun base parameter => base ++ '_' :: sanitize parameter [])
    (declarationBase (manager.kind declaration) (symbolText (manager.name declaration)))

def registerSorts (manager : Manager S D) (registry : Registry S D) (sorts : List S) :
    Registry S D :=
  sorts.foldl (fun registry sort => (sortAlias manager registry sort).2) registry

theorem extends_registerSorts (manager : Manager S D) (registry : Registry S D) (sorts : List S) :
    registry.Extends (registerSorts manager registry sorts) := by
  induction sorts generalizing registry with
  | nil => exact .refl registry
  | cons sort sorts ih => exact (extends_sortAlias manager registry sort).trans (ih _)

variable [DecidableEq D]

/-- Alias of a declaration, registered with its sorts at its first use. -/
def declarationAlias (manager : Manager S D) (registry : Registry S D) (declaration : D) :
    Text × Registry S D :=
  match registry.declarations.aliasOf declaration with
  | some label => (label, registry)
  | none =>
    let label := registry.unique (sanitize (declarationText manager declaration) declarationLead)
    (label, registerSorts manager { registry with
      declarations := registry.declarations.add label declaration
        (fun used => registry.unique_fresh _ (mem_append_right _ used))
        (registry.unique_named _ _) }
      (manager.domain declaration ++ [manager.range declaration]))

theorem extends_declarationAlias (manager : Manager S D) (registry : Registry S D)
    (declaration : D) : registry.Extends (declarationAlias manager registry declaration).2 := by
  unfold declarationAlias
  split
  · exact .refl registry
  · dsimp only
    refine Extends.trans ?_ (extends_registerSorts manager _ _)
    exact ⟨prefix_refl _, prefix_append _ _⟩

theorem declarationAlias_bound (manager : Manager S D) (registry : Registry S D)
    (declaration : D) : ⟨(declarationAlias manager registry declaration).1, declaration⟩ ∈
      (declarationAlias manager registry declaration).2.declarations.bindings := by
  unfold declarationAlias
  split
  · rename_i label found
    exact Table.mem_of_aliasOf found
  · exact (extends_registerSorts manager _ _).declarations.subset (by simp [Table.add])

theorem declaration_declarationAlias {declaration : D}
    (kept : (declarationAlias manager registry declaration).2.Extends later) :
    later.declaration (declarationAlias manager registry declaration).1 = .ok declaration := by
  rw [Registry.declaration, Table.lookup_of_mem kept.declarations
    (declarationAlias_bound manager registry declaration)]

theorem declarationAlias_named (manager : Manager S D) (registry : Registry S D)
    (declaration : D) : IsAlias declarationLead (declarationAlias manager registry declaration).1 :=
  Table.named _ _ (declarationAlias_bound manager registry declaration)

end Registry

end Fine.Lift
