import ScopeScript.Evaluator.Basic
import ScopeScript.Evaluator.Prelude
import ScopeScript.Text.Blank

/-!
# Native routines

The routines that programs find under the names of the standard scope: printing, conversions, the
methods of values that are no scopes, the storage of maps, and the constructor of maps. A routine
is a value with a tag; the tag is its place in `Native.all`.
-/

namespace ScopeScript

/-- The native routines. -/
inductive Native
  | print | println
  | toText | toNumber | toBool | toError | kindOf | length
  | boxedText | boxedIsError | boxedNumber | boxedLength | boxedKind
  | mapSet | mapGet | mapDelete | mapHas | mapKeys | mapValues | mapClear | mapLength
  | newMap
  deriving DecidableEq, Repr, Inhabited

namespace Native

/-- All routines, in the order of their tags. -/
def all : List Native :=
  [print, println, toText, toNumber, toBool, toError, kindOf, length, boxedText, boxedIsError,
    boxedNumber, boxedLength, boxedKind, mapSet, mapGet, mapDelete, mapHas, mapKeys, mapValues,
    mapClear, mapLength, newMap]

/-- The routine with a tag. -/
def ofTag? (tag : Int) : Option Native :=
  if tag < 0 then none else all[tag.toNat]?

/-- The value of a routine. -/
def value (native : Native) : Value :=
  .native (all.idxOf native)

/-- The routines for output, by name. -/
def outputRoutines : List (String × Native) :=
  [("print", print), ("println", println)]

/-- The conversions, by name. -/
def conversions : List (String × Native) :=
  [("str", toText), ("num", toNumber), ("bool", toBool), ("error", toError), ("type", kindOf),
    ("len", length)]

/-- The storage of maps, by name. -/
def mapRoutines : List (String × Native) :=
  [("set", mapSet), ("get", mapGet), ("del", mapDelete), ("has", mapHas), ("keys", mapKeys),
    ("values", mapValues), ("clear", mapClear), ("len", mapLength)]

/-- The methods of values that are no scopes, by name. -/
def boxedMethods : List (String × Native) :=
  [("to_string", boxedText), ("is_err", boxedIsError), ("to_number", boxedNumber),
    ("len", boxedLength), ("type", boxedKind)]

/-- The name of the value inside its box. -/
def boxedValue : String := "$value"

/-- Convert a value to a number. -/
def numberOf : Value → Value
  | .number value => .number value
  | .bool value => .number (if value then 1 else 0)
  | .text value =>
      match Decimal.read? (Text.trim value) with
      | some number => .number number
      | none => .none
  | _ => .none

/-- Number of characters of a text, of elements of a sequence, of names of a live scope. -/
def lengthOf (vault : Vault) : Value → Value
  | .text value => .number (Float.ofNat value.length)
  | .sequence items => .number (Float.ofNat items.length)
  | .scope handle =>
      match vault.bindings handle with
      | .ok table => .number (Float.ofNat table.size)
      | .error _ => .none
  | _ => .none

/-- What a routine of one argument computes. -/
def convert (native : Native) (machine : Machine) (value : Value) : Value :=
  match native with
  | toText | boxedText => .text (machine.display value)
  | toNumber | boxedNumber => numberOf value
  | toBool => .bool value.isTrue
  | toError => .error (machine.display value)
  | kindOf | boxedKind => .text value.kind
  | length | boxedLength => lengthOf machine.vault value
  | boxedIsError => .bool (value.kind == "error")
  | _ => .none

/-- A value as it is printed, coloured by its kind. -/
def colorize (machine : Machine) (value : Value) : String :=
  let text := machine.display value
  match value with
  | .number _ => Text.coloured Text.Style.number text
  | .bool _ => Text.styled Text.Style.truth text
  | .none => Text.coloured Text.Style.faint text
  | .error _ => Text.coloured Text.Style.error text
  | _ => text

/-- Print values, separated by blanks. -/
def printAll (values : List Value) (ending : String) : Eval Value := do
  let color := (← Eval.config).color
  let machine ← Eval.machine
  let texts := values.map fun value =>
    if color then colorize machine value else machine.display value
  let line := " ".intercalate texts ++ ending
  Eval.update fun machine => { machine with output := machine.output ++ line }
  return .none

/-- The diagnostic for a wrong number of arguments. -/
def wrongArity (span : Span) (callee : String) (wanted given : Nat) : Eval α :=
  Eval.failAt span .arity
    ("`" ++ callee ++ "` expects " ++ toString wanted ++ " argument(s), got " ++ toString given)

/-- Call a conversion, which has one argument. -/
def callConversion (native : Native) (site : CallSite) : List Value → Eval Value
  | [value] => do return native.convert (← Eval.machine) value
  | values => wrongArity site.span site.callee 1 values.length

/-- Call a method of a boxed value. Without an argument it takes the value in the box. -/
def callBoxed (native : Native) (site : CallSite) : List Value → Eval Value
  | [] => fun context machine =>
      match Eval.onVault (Vault.resolve boxedValue) context machine with
      | (.done (_, value), machine) => (.done (native.convert machine value), machine)
      | (.failed _, machine) =>
          Eval.failAt site.span .notScope
            ("`" ++ site.callee ++ "` called on non-primitive") context machine
      | (.crashed crash, machine) => (.crashed crash, machine)
      | (.endless, machine) => (.endless, machine)
  | values => callConversion native site values

/-- What the storage routines do with the bindings of a scope and the other arguments. -/
def onEntries (native : Native) (site : CallSite) (handle : Handle) (table : Table) :
    List Value → Eval Value
  | [key, value] => do
      if native = mapSet then
        Eval.onVaultAt site.span (Vault.defineIn handle key.toText value)
      return .none
  | [key] => do
      match native with
      | mapGet => return ((table.find? key.toText).map (·.value)).getD .none
      | mapDelete => return .bool (← Eval.onVaultAt site.span (Vault.eraseIn handle key.toText))
      | mapHas => return .bool (table.find? key.toText).isSome
      | _ => return .none
  | _ => do
      match native with
      | mapKeys => return .sequence (table.names.map .text)
      | mapValues => return .sequence table.values
      | mapClear =>
          Eval.onVault (Vault.clearIn handle)
          return .none
      | mapLength => return .number (Float.ofNat table.size)
      | _ => return .none

/-- Number of arguments of a storage routine. -/
def storageArity : Native → Nat
  | mapSet => 3
  | mapGet | mapDelete | mapHas => 2
  | _ => 1

/-- Call a storage routine. Its first argument is the scope that holds the entries. -/
def callStorage (native : Native) (site : CallSite) (values : List Value) : Eval Value :=
  if values.length = native.storageArity then
    match values with
    | .scope handle :: rest => do
        let table ← Eval.queryAt site.span (·.bindings handle)
        onEntries native site handle table rest
    | value :: _ =>
        Eval.failAt site.span .notScope
          ("`" ++ site.callee ++ "` expects a map, got " ++ value.kind)
    | [] => return .none
  else
    wrongArity site.span site.callee native.storageArity values.length

/-- Create a map: a scope owned by the innermost block, with a scope for its entries and the
methods of the prelude. -/
def callNewMap (recursion : Recursion) (site : CallSite) (values : List Value) : Eval Value := do
  if !values.isEmpty then
    wrongArity site.span site.callee 0 values.length
  else
    let owner ← Eval.onVault Vault.owner
    let handle ← Eval.onVaultAt site.span (Vault.createOwned owner "Map")
    let entries ← Eval.onVaultAt site.span (Vault.createOwned handle "entries")
    Eval.onVault (Vault.defineIn handle "this" (.scope handle))
    Eval.onVault (Vault.defineIn handle "entries" (.scope entries))
    Eval.onVaultAt site.span (Vault.enterNamed handle)
    Eval.ensuring
      (do
        let _ ← Eval.inFile ⟨Prelude.path, Prelude.source⟩
          (Eval.within Prelude.origin (recursion.execute Prelude.statements))
        return .scope handle)
      (Eval.onVault Vault.exitNamed)

/-- Call a native routine. -/
def call (native : Native) (recursion : Recursion) (site : CallSite) (values : List Value) :
    Eval Value :=
  match native with
  | print => printAll values ""
  | println => printAll values "\n"
  | toText | toNumber | toBool | toError | kindOf | length => callConversion native site values
  | boxedText | boxedIsError | boxedNumber | boxedLength | boxedKind =>
      callBoxed native site values
  | newMap => callNewMap recursion site values
  | _ => callStorage native site values

/-- Bind routines in the innermost scope. -/
def defineAll : List (String × Native) → Run Vault Unit
  | [] => return ()
  | (name, native) :: rest => do
      Vault.define name native.value
      defineAll rest

/-- Fill the global scope: the standard scope with its parts, output and conversions directly, and
the class of maps. -/
def injectAll : Run Vault Unit := do
  let std ← Vault.declare "std"
  defineAll conversions
  let io ← Vault.declare "io"
  defineAll outputRoutines
  Vault.endDeclaration io "io"
  let hashmap ← Vault.declare "hashmap"
  defineAll mapRoutines
  Vault.endDeclaration hashmap "hashmap"
  Vault.endDeclaration std "std"
  defineAll outputRoutines
  defineAll conversions
  let class_ ← Vault.declare "Map"
  Vault.define "new" newMap.value
  Vault.endDeclaration class_ "Map"

end Native

end ScopeScript
