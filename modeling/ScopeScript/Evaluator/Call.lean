import ScopeScript.Evaluator.Native

/-!
# Calls and members

A function runs in a new block with its parameters bound to the arguments; what it throws becomes
an error value, and what it yields a sequence unless it returns something.

Members of a scope are resolved with the scope entered. Any other value but a function is put
into a box with a few methods, and only these are its members.
-/

namespace ScopeScript
namespace Evaluator

/-- Bind parameters to arguments in the innermost scope. -/
def bindParameters : List String → List Value → Eval Unit
  | name :: names, value :: values => do
      Eval.define name value
      bindParameters names values
  | _, _ => return ()

/-- Evaluate with a new, innermost activation. -/
@[inline] def activated (body : Eval α) : Eval α := do
  Eval.update fun machine => { machine with activations := [] :: machine.activations }
  Eval.ensuring body
    (Eval.update fun machine => { machine with activations := machine.activations.tail })

/-- The values yielded by the innermost activation, as the result of its function. -/
def yieldedValues (machine : Machine) : Value :=
  match machine.activations with
  | (value :: values) :: _ => .sequence (value :: values).reverse
  | _ => .none

/-- Result of a function whose body ended with a flow. -/
def resultOfBody : Flow → Eval Value
  | .result value => return value
  | .thrown value _ => do return .error (← Eval.display value)
  | _ => do return yieldedValues (← Eval.machine)

/-- Call a declared function. -/
def callFunction (recursion : Recursion) (site : CallSite) (function : Function)
    (values : List Value) : Eval Value :=
  if values.length = function.parameters.length then
    Eval.deeper site.span <| Eval.inBlock do
      bindParameters function.parameters values
      activated do
        let flow ← Eval.within function.origin (recursion.execute function.body)
        resultOfBody flow
  else
    Native.wrongArity site.span function.name function.parameters.length values.length

/-- Call a value. -/
def invoke (recursion : Recursion) (site : CallSite) (callee : Value) (values : List Value) :
    Eval Value :=
  match callee with
  | .native tag =>
      match Native.ofTag? tag with
      | some native => native.call recursion site values
      | none =>
          Eval.failAt site.span .notCallable
            ("no native routine for `" ++ site.callee ++ "`")
  | .function function => callFunction recursion site function values
  | other =>
      Eval.failAt site.span .notCallable
        ("`" ++ site.callee ++ "` is not a function, but " ++ other.kind)

/-- Call what a name is bound to in the active scopes. -/
def callByName (recursion : Recursion) (site : CallSite) (values : List Value) : Eval Value := do
  let callee ← lookup recursion site.span site.callee
  invoke recursion site callee values

/-- Whether a value has the methods of a box. -/
def isBoxable : Value → Bool
  | .function _ | .native _ => false
  | _ => true

/-- Bind the methods of a box. -/
def defineMethods : List (String × Native) → Eval Unit
  | [] => return ()
  | (name, native) :: rest => do
      Eval.define name native.value
      defineMethods rest

/-- Evaluate with a value in a box; the body gets the handle of the box. -/
@[inline] def inBox (value : Value) (body : Handle → Eval α) : Eval α := do
  let box ← Eval.onVault Vault.enterBoxed
  Eval.define Native.boxedValue value
  defineMethods Native.boxedMethods
  Eval.ensuring (body box) (Eval.onVault Vault.exitBoxed)

/-- Evaluate inside a scope given by its handle. -/
@[inline] def inScope (span : Span) (handle : Handle) (body : Eval α) : Eval α := do
  Eval.onVaultAt span (Vault.enterNamed handle)
  Eval.ensuring body (Eval.onVault Vault.exitNamed)

/-- The value bound to a name in a box, if there is one. -/
def boxedMember? (machine : Machine) (box : Handle) (name : String) : Option Value :=
  match machine.vault.lookup box name with
  | .ok (some binding) => some binding.value
  | _ => none

/-- Read a member of a value. -/
def property (recursion : Recursion) (span : Span) (object : Value) (name : String) :
    Eval Value :=
  match object with
  | .scope handle => inScope span handle (lookup recursion span name)
  | other =>
      if isBoxable other then
        inBox other fun box => do
          match boxedMember? (← Eval.machine) box name with
          | some value => return value
          | none =>
              Eval.failAt span .unboundName (other.kind ++ " has no member `" ++ name ++ "`")
      else
        Eval.failAt span .notScope (other.kind ++ " is not a scope")

/-- Call a member of a value. -/
def callMember (recursion : Recursion) (span : Span) (object : Value) (site : CallSite)
    (values : List Value) : Eval Value :=
  match object with
  | .scope handle => inScope span handle (callByName recursion site values)
  | other =>
      if isBoxable other then
        inBox other fun box => do
          match boxedMember? (← Eval.machine) box site.callee with
          | some callee => invoke recursion site callee values
          | none =>
              Eval.failAt site.span .unboundName
                (other.kind ++ " has no method `" ++ site.callee ++ "`")
      else
        Eval.failAt site.span .notScope (other.kind ++ " is not a scope")

/-- The element of a sequence, the character of a text or the binding of a scope that a key
selects; what is missing is the empty value. -/
def elementAt (recursion : Recursion) (span objectSpan : Span) (object key : Value) :
    Eval Value :=
  match object with
  | .sequence items => return ((position? key items.length).bind (items[·]?)).getD .none
  | .text text =>
      let chars := text.toList
      match (position? key chars.length).bind (chars[·]?) with
      | some c => return .text c.toString
      | none => return .none
  | .scope handle => do
      match ← Eval.queryAt span (·.lookup handle key.toText) with
      | none => return .none
      | some ⟨_, .formula _⟩ => property recursion span object key.toText
      | some binding => return binding.value
  | other => Eval.failAt objectSpan .notScope ("cannot index " ++ other.kind)

end Evaluator
end ScopeScript
