import ScopeScript.Stmt
import ScopeScript.Vault.Handle

/-!
# Values

What an expression evaluates to. A formula is an expression that is evaluated whenever its
binding is read; a scope is a reference to a record of the scope store; functions do not capture
the scopes they were declared in.

Formulas and functions are told apart by where they stand: two of them are equal exactly if they
are the same piece of the same parsed text, which is what their origin and span say.
-/

namespace ScopeScript

/-- The number of the parse that a piece of tree comes from. -/
abbrev Origin := Nat

/-- An expression kept unevaluated. -/
structure Formula where
  origin : Origin
  expr : Expr
  deriving Inhabited

/-- A declared function. -/
structure Function where
  origin : Origin
  span : Span
  name : String
  parameters : List String
  body : List Stmt
  isAsync : Bool
  deriving Inhabited

/-- A value of the language. -/
inductive Value
  | none
  | number (value : Float)
  | bool (value : Bool)
  | text (value : String)
  | sequence (items : List Value)
  | formula (content : Formula)
  | scope (handle : Handle)
  | native (tag : Int)
  | function (content : Function)
  | error (message : String)
  deriving Inhabited

namespace Value

/-- The name of the kind of a value, as the language reports it. -/
def kind : Value → String
  | none => "None"
  | number _ => "number"
  | bool _ => "bool"
  | text _ => "string"
  | sequence _ => "sequence"
  | formula _ => "formula"
  | scope _ => "scope"
  | native _ => "native"
  | function _ => "function"
  | error _ => "error"

/-- Whether a value is the empty value. -/
def isNone : Value → Bool
  | none => true
  | _ => false

/-- Whether a value counts as true: the empty value and zero do not. -/
def isTrue : Value → Bool
  | none => false
  | number value => value != 0
  | bool value => value
  | _ => true

mutual

/-- Equality of values. Values of different kinds are never equal. -/
def equal : Value → Value → Bool
  | none, none => true
  | number left, number right => left == right
  | bool left, bool right => left == right
  | text left, text right => left == right
  | sequence left, sequence right => equalAll left right
  | formula left, formula right =>
      left.origin == right.origin && left.expr.span == right.expr.span
  | scope left, scope right => left == right
  | native left, native right => left == right
  | function left, function right => left.origin == right.origin && left.span == right.span
  | error left, error right => left == right
  | _, _ => false

/-- Equality of sequences, element by element. -/
def equalAll : List Value → List Value → Bool
  | [], [] => true
  | left :: lefts, right :: rights => left.equal right && equalAll lefts rights
  | _, _ => false

end

mutual

/-- Written form of a value. Scopes are written by the given function. -/
def textWith (scopeText : Handle → String) : Value → String
  | none => "None"
  | number value => Decimal.format value
  | bool value => if value then "true" else "false"
  | text value => value
  | sequence items => "[" ++ ", ".intercalate (itemTexts scopeText items) ++ "]"
  | formula content => content.expr.render
  | scope handle => "<scope " ++ scopeText handle ++ ">"
  | native _ => "<native fn>"
  | function content => "<fn " ++ content.name ++ ">"
  | error message => "error: " ++ message

/-- Written forms of the elements of a sequence. Texts are quoted there. -/
def itemTexts (scopeText : Handle → String) : List Value → List String
  | [] => []
  | text value :: rest => Text.quoted value :: itemTexts scopeText rest
  | item :: rest => item.textWith scopeText :: itemTexts scopeText rest

end

/-- Written form of a value with scopes written by their handle. This is also the key of a value
in a scope. -/
def toText (value : Value) : String :=
  value.textWith Handle.text

end Value

end ScopeScript
