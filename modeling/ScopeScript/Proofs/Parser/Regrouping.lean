import ScopeScript.Proofs.Parser.Precedence
import ScopeScript.Proofs.Parser.Provenance

/-!
# What an `await` covers

Rendering puts parentheses around operators, but not around an `await`. An access to an awaited
value is therefore written like the await of an access: the member of `(await a)` and the await of
a member of `a` look the same. `regrouped` moves every `await` that is the object of an access
outwards, so that it covers the access. That does not change the rendered form
(`render_regrouped`), nor an expression in which no object is an `await` (`regrouped_unplaced`).
-/

namespace ScopeScript
namespace Expr

/-- Whether an expression awaits something. -/
def isAwait : Expr → Bool
  | await _ _ => true
  | _ => false

/-- Whether a node accesses an awaited value. -/
def accessesAwait : Expr → Bool
  | member _ object _ _ | method _ object _ _ _ _ | index _ object _ => object.isAwait
  | _ => false

/-- Make an access to what an expression awaits, or to the expression itself. -/
def underAwaits (access : Expr → Expr) : Expr → Expr
  | await span operand => await span (operand.underAwaits access)
  | object => access object

mutual

/-- The expression in which every `await` covers the accesses to its value. -/
def regrouped : Expr → Expr
  | binary span left operator right => .binary span left.regrouped operator right.regrouped
  | unary span operator operand => .unary span operator operand.regrouped
  | conditional span test consequent alternate =>
      .conditional span test.regrouped consequent.regrouped alternate.regrouped
  | sequence span items => .sequence span (regroupedAll items)
  | call span callee argumentsSpan arguments =>
      .call span callee argumentsSpan (regroupedAll arguments)
  | member span object nameSpan label =>
      object.regrouped.underAwaits fun object => .member span object nameSpan label
  | method span object callSpan callee argumentsSpan arguments =>
      object.regrouped.underAwaits fun object =>
        .method span object callSpan callee argumentsSpan (regroupedAll arguments)
  | index span object key =>
      object.regrouped.underAwaits fun object => .index span object key.regrouped
  | await span operand => .await span operand.regrouped
  | construct span callSpan callee argumentsSpan arguments =>
      .construct span callSpan callee argumentsSpan (regroupedAll arguments)
  | expr => expr

/-- The expressions in which every `await` covers the accesses to its value. -/
def regroupedAll : List Expr → List Expr
  | [] => []
  | expr :: rest => expr.regrouped :: regroupedAll rest

end

/-- An access to anything but an awaited value stays where it is. -/
theorem underAwaits_of_not_await {object : Expr} (access : Expr → Expr)
    (notAwait : object.isAwait = false) : object.underAwaits access = access object := by
  fun_cases underAwaits access object with
  | case1 => cases notAwait
  | case2 => rfl

@[simp] theorem unplaced_await (span : Span) (operand : Expr) :
    (await span operand).unplaced = .await .null operand.unplaced :=
  rfl

@[simp] theorem unplaced_construct (span callSpan argumentsSpan : Span) (callee : String)
    (arguments : List Expr) :
    (construct span callSpan callee argumentsSpan arguments).unplaced =
      .construct .null .null callee .null (arguments.map unplaced) :=
  congrArg (construct .null .null callee .null) (mapSpansAll_eq_map _ arguments)

@[simp] theorem isAwait_unplaced (expr : Expr) : expr.unplaced.isAwait = expr.isAwait := by
  cases expr <;> rfl

/-! ## The rendered form -/

/-- What is written behind an object is written behind what is awaited. -/
theorem render_underAwaits {access : Expr → Expr} (suffix : String)
    (written : ∀ object, (access object).render = object.render ++ suffix) (object : Expr) :
    (object.underAwaits access).render = object.render ++ suffix := by
  fun_induction underAwaits access object with
  | case1 span operand inductionHypothesis =>
      rw [render, inductionHypothesis, render, String.append_assoc]
  | case2 object => exact written object

mutual

/-- Regrouping does not change the rendered form. -/
theorem render_regrouped : ∀ expr : Expr, expr.regrouped.render = expr.render
  | binary _ left _ right => by
      simp only [regrouped, render, render_regrouped left, render_regrouped right]
  | unary _ _ operand | await _ operand => by
      simp only [regrouped, render, render_regrouped operand]
  | conditional _ test consequent alternate => by
      simp only [regrouped, render, render_regrouped test, render_regrouped consequent,
        render_regrouped alternate]
  | sequence _ arguments | call _ _ _ arguments | construct _ _ _ _ arguments => by
      simp only [regrouped, render, renderAll_regroupedAll arguments]
  | member _ object _ label => by
      rw [regrouped, render_underAwaits ("." ++ label) fun _ => ?_,
        render_regrouped object, render, String.append_assoc]
      rw [render, String.append_assoc]
  | method _ object _ callee _ arguments => by
      rw [regrouped, render_underAwaits ("." ++ callee ++ "(" ++
        ", ".intercalate (renderAll arguments) ++ ")") fun _ => ?_, render_regrouped object]
      · simp only [render, String.append_assoc]
      · simp only [render, renderAll_regroupedAll arguments, String.append_assoc]
  | index _ object key => by
      rw [regrouped, render_underAwaits ("[" ++ key.render ++ "]") fun _ => ?_,
        render_regrouped object]
      · simp only [render, String.append_assoc]
      · simp only [render, render_regrouped key, String.append_assoc]
  | number _ _ | text _ _ | bool _ _ | none _ | absent _ | name _ _ | delete _ _ _ => rfl

theorem renderAll_regroupedAll :
    ∀ exprs : List Expr, renderAll (regroupedAll exprs) = renderAll exprs
  | [] => rfl
  | expr :: rest => by
      simp only [regroupedAll, renderAll, render_regrouped expr, renderAll_regroupedAll rest]

end

/-! ## Expressions that stay -/

mutual

/-- Without accesses to awaited values nothing is moved. -/
theorem regrouped_unplaced : ∀ expr : Expr, (∀ node ∈ expr.nodes, node.accessesAwait = false) →
    expr.unplaced.regrouped = expr.unplaced
  | number _ _, _ | text _ _, _ | bool _ _, _ | none _, _ | absent _, _ | name _ _, _
  | delete _ _ _, _ => rfl
  | binary _ left _ right, covered => by
      rw [nodes, List.forall_mem_cons, List.forall_mem_append] at covered
      rw [unplaced_binary, regrouped, regrouped_unplaced left covered.2.1,
        regrouped_unplaced right covered.2.2]
  | unary _ _ operand, covered => by
      rw [nodes, List.forall_mem_cons] at covered
      rw [unplaced_unary, regrouped, regrouped_unplaced operand covered.2]
  | await _ operand, covered => by
      rw [nodes, List.forall_mem_cons] at covered
      rw [unplaced_await, regrouped, regrouped_unplaced operand covered.2]
  | conditional _ test consequent alternate, covered => by
      rw [nodes, List.forall_mem_cons, List.forall_mem_append, List.forall_mem_append] at covered
      rw [unplaced_conditional, regrouped, regrouped_unplaced test covered.2.1.1,
        regrouped_unplaced consequent covered.2.1.2, regrouped_unplaced alternate covered.2.2]
  | sequence _ items, covered => by
      rw [nodes, List.forall_mem_cons] at covered
      rw [unplaced_sequence, regrouped, regroupedAll_unplaced items covered.2]
  | call _ _ _ arguments, covered => by
      rw [nodes, List.forall_mem_cons] at covered
      rw [unplaced_call, regrouped, regroupedAll_unplaced arguments covered.2]
  | construct _ _ _ _ arguments, covered => by
      rw [nodes, List.forall_mem_cons] at covered
      rw [unplaced_construct, regrouped, regroupedAll_unplaced arguments covered.2]
  | member _ object _ _, covered => by
      rw [nodes, List.forall_mem_cons] at covered
      have notAwait : object.isAwait = false := covered.1
      rw [unplaced_member, regrouped, regrouped_unplaced object covered.2,
        underAwaits_of_not_await _ (by rwa [isAwait_unplaced])]
  | method _ object _ _ _ arguments, covered => by
      rw [nodes, List.forall_mem_cons, List.forall_mem_append] at covered
      have notAwait : object.isAwait = false := covered.1
      rw [unplaced_method, regrouped, regrouped_unplaced object covered.2.1,
        regroupedAll_unplaced arguments covered.2.2,
        underAwaits_of_not_await _ (by rwa [isAwait_unplaced])]
  | index _ object key, covered => by
      rw [nodes, List.forall_mem_cons, List.forall_mem_append] at covered
      have notAwait : object.isAwait = false := covered.1
      rw [unplaced_index, regrouped, regrouped_unplaced object covered.2.1,
        regrouped_unplaced key covered.2.2,
        underAwaits_of_not_await _ (by rwa [isAwait_unplaced])]

/-- A list without accesses to awaited values is its own regrouping. -/
theorem regroupedAll_unplaced :
    ∀ exprs : List Expr, (∀ node ∈ nodesAll exprs, node.accessesAwait = false) →
      regroupedAll (exprs.map unplaced) = exprs.map unplaced
  | [], _ => rfl
  | expr :: rest, covered => by
      rw [nodesAll, List.forall_mem_append] at covered
      rw [List.map_cons, regroupedAll, regrouped_unplaced expr covered.1,
        regroupedAll_unplaced rest covered.2]

end

end Expr
end ScopeScript
