import ScopeScript.Machine
import ScopeScript.Parser.Source
import ScopeScript.Proofs.Parser.Spans

/-!
# The places of a source text that are evaluated

`spans` lists the spans of all nodes of a tree. Some nodes are not evaluated where they stand but
later, when a function is called or a formula is read: `deferredSpans` lists the spans inside the
bodies of functions and the right sides of formulas. `Stmt.Placed` tells the two apart while a
statement is taken to pieces.
-/

namespace ScopeScript

namespace Expr

mutual

/-- The spans of the nodes of an expression. -/
def spans : Expr → List Span
  | number span _ | text span _ | bool span _ | none span | absent span | name span _ => [span]
  | binary span left _ right => span :: (left.spans ++ right.spans)
  | unary span _ operand | await span operand => span :: operand.spans
  | conditional span test consequent alternate =>
      span :: (test.spans ++ (consequent.spans ++ alternate.spans))
  | sequence span items => span :: spansAll items
  | call span _ argumentsSpan arguments => span :: argumentsSpan :: spansAll arguments
  | member span object nameSpan _ => span :: (object.spans ++ [nameSpan])
  | method span object callSpan _ argumentsSpan arguments =>
      span :: (object.spans ++ callSpan :: argumentsSpan :: spansAll arguments)
  | index span object key => span :: (object.spans ++ key.spans)
  | delete span nameSpan _ => [span, nameSpan]
  | construct span callSpan _ argumentsSpan arguments =>
      span :: callSpan :: argumentsSpan :: spansAll arguments

/-- The spans of the nodes of some expressions. -/
def spansAll : List Expr → List Span
  | [] => []
  | expr :: rest => expr.spans ++ spansAll rest

end

variable {P : Span → Prop}

mutual

/-- A property of every span is one of all in the list of spans. -/
theorem spans_iff : ∀ expr : Expr, expr.EverySpan P ↔ ∀ span ∈ expr.spans, P span
  | number _ _ | text _ _ | bool _ _ | none _ | absent _ | name _ _ => by simp [EverySpan, spans]
  | binary _ left _ right => by
      simp only [EverySpan, spans, spans_iff left, spans_iff right, List.forall_mem_cons,
        List.forall_mem_append]
  | unary _ _ operand | await _ operand => by
      simp only [EverySpan, spans, spans_iff operand, List.forall_mem_cons]
  | conditional _ test consequent alternate => by
      simp only [EverySpan, spans, spans_iff test, spans_iff consequent,
        spans_iff alternate, List.forall_mem_cons, List.forall_mem_append]
  | sequence _ items => by
      simp only [EverySpan, spans, spansAll_iff items, List.forall_mem_cons]
  | call _ _ _ arguments => by
      simp only [EverySpan, spans, spansAll_iff arguments, List.forall_mem_cons]
  | member _ object _ _ => by
      rw [EverySpan, spans, spans_iff object, List.forall_mem_cons, List.forall_mem_append,
        List.forall_mem_singleton]
  | method _ object _ _ _ arguments => by
      simp only [EverySpan, spans, spans_iff object, spansAll_iff arguments,
        List.forall_mem_cons, List.forall_mem_append]
  | index _ object key => by
      simp only [EverySpan, spans, spans_iff object, spans_iff key, List.forall_mem_cons,
        List.forall_mem_append]
  | delete _ _ _ => by simp [EverySpan, spans]
  | construct _ _ _ _ arguments => by
      simp only [EverySpan, spans, spansAll_iff arguments, List.forall_mem_cons]

theorem spansAll_iff :
    ∀ exprs : List Expr, EverySpanAll P exprs ↔ ∀ span ∈ spansAll exprs, P span
  | [] => by simp [EverySpanAll, spansAll]
  | expr :: rest => by
      simp only [EverySpanAll, spansAll, spans_iff expr, spansAll_iff rest,
        List.forall_mem_append]

end

/-- A property of every span may be weakened. -/
theorem EverySpan.mono {Q : Span → Prop} (weaker : ∀ span, P span → Q span) {expr : Expr}
    (every : expr.EverySpan P) : expr.EverySpan Q :=
  (spans_iff expr).2 fun span member => weaker span ((spans_iff expr).1 every span member)

end Expr

namespace Stmt

mutual

/-- The spans of the nodes of a statement. -/
def spans : Stmt → List Span
  | breaks span | continues span | imports span _ _ => [span]
  | evaluate span expr | throws span expr | declare span _ expr _ => span :: expr.spans
  | returns span argument | yields span argument => span :: (argument.map Expr.spans).getD []
  | function span _ _ body _ | scope span _ body | context span _ body | block span body =>
      span :: spansAll body
  | conditional span test consequentSpan consequent alternate =>
      span :: (test.spans ++ consequentSpan :: (spansAll consequent ++ spansOf? alternate))
  | forEach span _ expr bodySpan body | whileLoop span expr bodySpan body =>
      span :: (expr.spans ++ bodySpan :: spansAll body)
  | loop span bodySpan body => span :: bodySpan :: spansAll body
  | assign span target _ right => span :: (target.spans ++ right.spans)
  | attempt span bodySpan body _ handlerSpan handler =>
      span :: bodySpan :: (spansAll body ++ handlerSpan :: spansAll handler)

/-- The spans of the nodes of some statements. -/
def spansAll : List Stmt → List Span
  | [] => []
  | statement :: rest => statement.spans ++ spansAll rest

/-- The spans of the nodes of a statement, if there is one. -/
def spansOf? : Option Stmt → List Span
  | none => []
  | some statement => statement.spans

end

mutual

/-- The spans of those nodes of a statement that are evaluated later: the bodies of functions and
the right sides of formulas. -/
def deferredSpans : Stmt → List Span
  | declare _ _ expr isFormula => if isFormula then expr.spans else []
  | assign _ _ operator right => if operator = .formula then right.spans else []
  | function _ _ _ body _ => spansAll body
  | scope _ _ body | context _ _ body | block _ body | forEach _ _ _ _ body
  | whileLoop _ _ _ body | loop _ _ body => deferredSpansAll body
  | conditional _ _ _ consequent alternate =>
      deferredSpansAll consequent ++ deferredSpansOf? alternate
  | attempt _ _ body _ _ handler => deferredSpansAll body ++ deferredSpansAll handler
  | breaks _ | continues _ | imports _ _ _ | evaluate _ _ | throws _ _ | returns _ _
  | yields _ _ => []

/-- The spans of those nodes of some statements that are evaluated later. -/
def deferredSpansAll : List Stmt → List Span
  | [] => []
  | statement :: rest => statement.deferredSpans ++ deferredSpansAll rest

/-- The spans of those nodes of a statement, if there is one, that are evaluated later. -/
def deferredSpansOf? : Option Stmt → List Span
  | none => []
  | some statement => statement.deferredSpans

end

mutual

/-- Something holds of the spans of a statement, and something else of those that are evaluated
later. -/
def Placed (here later : Span → Prop) : Stmt → Prop
  | breaks span | continues span | imports span _ _ => here span
  | evaluate span expr | throws span expr => here span ∧ expr.EverySpan here
  | declare span _ expr isFormula =>
      here span ∧ expr.EverySpan (if isFormula then later else here)
  | returns span argument | yields span argument =>
      here span ∧ ∀ expr, argument = some expr → expr.EverySpan here
  | function span _ _ body _ => here span ∧ EverySpanAll later body
  | scope span _ body | context span _ body | block span body | loop span _ body =>
      here span ∧ PlacedAll here later body
  | conditional span test _ consequent alternate =>
      here span ∧ test.EverySpan here ∧ PlacedAll here later consequent ∧
        PlacedOf? here later alternate
  | forEach span _ expr _ body | whileLoop span expr _ body =>
      here span ∧ expr.EverySpan here ∧ PlacedAll here later body
  | assign span target operator right =>
      here span ∧ target.EverySpan here ∧
        right.EverySpan (if operator = .formula then later else here)
  | attempt span _ body _ _ handler =>
      here span ∧ PlacedAll here later body ∧ PlacedAll here later handler

/-- Some statements are placed. -/
def PlacedAll (here later : Span → Prop) : List Stmt → Prop
  | [] => True
  | statement :: rest => statement.Placed here later ∧ PlacedAll here later rest

/-- A statement, if there is one, is placed. -/
def PlacedOf? (here later : Span → Prop) : Option Stmt → Prop
  | none => True
  | some statement => statement.Placed here later

end

variable {P here later : Span → Prop}

mutual

/-- A property of every span of a statement is one of all in its list of spans. -/
theorem spans_iff : ∀ statement : Stmt,
    statement.EverySpan P ↔ ∀ span ∈ statement.spans, P span
  | breaks _ | continues _ | imports _ _ _ => by simp [EverySpan, spans]
  | evaluate _ expr | throws _ expr | declare _ _ expr _ => by
      simp only [EverySpan, spans, Expr.spans_iff expr, List.forall_mem_cons]
  | returns _ none | yields _ none => by simp [EverySpan, spans]
  | returns _ (some expr) | yields _ (some expr) => by
      simp [EverySpan, spans, Expr.spans_iff expr]
  | function _ _ _ body _ | scope _ _ body | context _ _ body | block _ body => by
      simp only [EverySpan, spans, spansAll_iff body, List.forall_mem_cons]
  | conditional _ test _ consequent alternate => by
      simp only [EverySpan, spans, Expr.spans_iff test, spansAll_iff consequent,
        spansOf?_iff alternate, List.forall_mem_cons, List.forall_mem_append]
  | forEach _ _ expr _ body | whileLoop _ expr _ body => by
      simp only [EverySpan, spans, Expr.spans_iff expr, spansAll_iff body,
        List.forall_mem_cons, List.forall_mem_append]
  | loop _ _ body => by
      simp only [EverySpan, spans, spansAll_iff body, List.forall_mem_cons]
  | assign _ target _ right => by
      simp only [EverySpan, spans, Expr.spans_iff target, Expr.spans_iff right,
        List.forall_mem_cons, List.forall_mem_append]
  | attempt _ _ body _ _ handler => by
      simp only [EverySpan, spans, spansAll_iff body, spansAll_iff handler,
        List.forall_mem_cons, List.forall_mem_append]

theorem spansAll_iff : ∀ statements : List Stmt,
    EverySpanAll P statements ↔ ∀ span ∈ spansAll statements, P span
  | [] => by simp [EverySpanAll, spansAll]
  | statement :: rest => by
      simp only [EverySpanAll, spansAll, spans_iff statement, spansAll_iff rest,
        List.forall_mem_append]

theorem spansOf?_iff : ∀ statement? : Option Stmt,
    EverySpanOf? P statement? ↔ ∀ span ∈ spansOf? statement?, P span
  | none => by simp [EverySpanOf?, spansOf?]
  | some statement => by simp only [EverySpanOf?, spansOf?, spans_iff statement]

end

mutual

/-- What is evaluated later is part of the tree. -/
theorem deferredSpans_subset : ∀ statement : Stmt, statement.deferredSpans ⊆ statement.spans
  | breaks _ | continues _ | imports _ _ _ | evaluate _ _ | throws _ _ | returns _ _
  | yields _ _ => List.nil_subset _
  | declare _ _ _ isFormula => by
      cases isFormula with
      | false => exact List.nil_subset _
      | true => exact List.subset_cons_self _ _
  | assign _ _ operator _ => by
      unfold deferredSpans
      split
      · exact List.subset_cons_of_subset _ (List.subset_append_right _ _)
      · exact List.nil_subset _
  | function _ _ _ body _ => List.subset_cons_self _ _
  | scope _ _ body | context _ _ body | block _ body =>
      List.subset_cons_of_subset _ (deferredSpansAll_subset body)
  | forEach _ _ _ _ body | whileLoop _ _ _ body =>
      List.subset_cons_of_subset _ (List.subset_append_of_subset_right _
        (List.subset_cons_of_subset _ (deferredSpansAll_subset body)))
  | loop _ _ body =>
      List.subset_cons_of_subset _ (List.subset_cons_of_subset _ (deferredSpansAll_subset body))
  | conditional _ _ _ consequent alternate => by
      refine List.subset_cons_of_subset _ (List.subset_append_of_subset_right _ ?_)
      refine List.subset_cons_of_subset _ (List.append_subset.2 ⟨?_, ?_⟩)
      · exact List.subset_append_of_subset_left _ (deferredSpansAll_subset consequent)
      · exact List.subset_append_of_subset_right _ (deferredSpansOf?_subset alternate)
  | attempt _ _ body _ _ handler => by
      refine List.subset_cons_of_subset _ (List.subset_cons_of_subset _ ?_)
      refine List.append_subset.2 ⟨?_, List.subset_append_of_subset_right _ ?_⟩
      · exact List.subset_append_of_subset_left _ (deferredSpansAll_subset body)
      · exact List.subset_cons_of_subset _ (deferredSpansAll_subset handler)

theorem deferredSpansAll_subset : ∀ statements : List Stmt,
    deferredSpansAll statements ⊆ spansAll statements
  | [] => List.nil_subset _
  | statement :: rest =>
      List.append_subset.2 ⟨List.subset_append_of_subset_left _ (deferredSpans_subset statement),
        List.subset_append_of_subset_right _ (deferredSpansAll_subset rest)⟩

theorem deferredSpansOf?_subset : ∀ statement? : Option Stmt,
    deferredSpansOf? statement? ⊆ spansOf? statement?
  | none => List.nil_subset _
  | some statement => deferredSpans_subset statement

end

mutual

/-- Where all spans have a property and those of bodies that are run later another one, the
statement is placed. -/
theorem placed_of_everySpan : ∀ statement : Stmt, statement.EverySpan here →
    (∀ span ∈ statement.deferredSpans, later span) → statement.Placed here later
  | breaks _, every, _ | continues _, every, _ | imports _ _ _, every, _ => every
  | evaluate _ _, every, _ | throws _ _, every, _ | returns _ _, every, _
  | yields _ _, every, _ => every
  | declare _ _ expr isFormula, ⟨span, every⟩, deferred => by
      refine ⟨span, ?_⟩
      cases isFormula with
      | false => exact every
      | true => exact (Expr.spans_iff expr).2 deferred
  | function _ _ _ body _, ⟨span, _⟩, deferred => ⟨span, (spansAll_iff body).2 deferred⟩
  | scope _ _ body, ⟨span, every⟩, deferred | context _ _ body, ⟨span, every⟩, deferred
  | block _ body, ⟨span, every⟩, deferred | loop _ _ body, ⟨span, _, every⟩, deferred =>
      ⟨span, placedAll_of_everySpanAll body every deferred⟩
  | conditional _ _ _ consequent alternate, ⟨span, test, _, consequentEvery, alternateEvery⟩,
      deferred => by
      obtain ⟨consequentDeferred, alternateDeferred⟩ := List.forall_mem_append.1 deferred
      exact ⟨span, test, placedAll_of_everySpanAll consequent consequentEvery consequentDeferred,
        placedOf?_of_everySpanOf? alternate alternateEvery alternateDeferred⟩
  | forEach _ _ _ _ body, ⟨span, exprEvery, _, every⟩, deferred
  | whileLoop _ _ _ body, ⟨span, exprEvery, _, every⟩, deferred =>
      ⟨span, exprEvery, placedAll_of_everySpanAll body every deferred⟩
  | assign _ _ operator right, ⟨span, target, every⟩, deferred => by
      refine ⟨span, target, ?_⟩
      by_cases formula : operator = .formula
      · rw [if_pos formula]
        refine (Expr.spans_iff right).2 fun span member => deferred span ?_
        rwa [deferredSpans, if_pos formula]
      · rw [if_neg formula]
        exact every
  | attempt _ _ body _ _ handler, ⟨span, _, bodyEvery, _, handlerEvery⟩, deferred => by
      obtain ⟨bodyDeferred, handlerDeferred⟩ := List.forall_mem_append.1 deferred
      exact ⟨span, placedAll_of_everySpanAll body bodyEvery bodyDeferred,
        placedAll_of_everySpanAll handler handlerEvery handlerDeferred⟩

theorem placedAll_of_everySpanAll : ∀ statements : List Stmt, EverySpanAll here statements →
    (∀ span ∈ deferredSpansAll statements, later span) → PlacedAll here later statements
  | [], _, _ => trivial
  | statement :: rest, ⟨first, others⟩, deferred => by
      obtain ⟨firstDeferred, othersDeferred⟩ := List.forall_mem_append.1 deferred
      exact ⟨placed_of_everySpan statement first firstDeferred,
        placedAll_of_everySpanAll rest others othersDeferred⟩

theorem placedOf?_of_everySpanOf? : ∀ statement? : Option Stmt, EverySpanOf? here statement? →
    (∀ span ∈ deferredSpansOf? statement?, later span) → PlacedOf? here later statement?
  | none, _, _ => trivial
  | some statement, every, deferred => placed_of_everySpan statement every deferred

end

/-- All nodes are as good as those that are evaluated later. -/
theorem placedAll_of_everySpanAll_self {statements : List Stmt}
    (every : EverySpanAll P statements) : PlacedAll P P statements :=
  placedAll_of_everySpanAll statements every fun span member =>
    (spansAll_iff statements).1 every span (deferredSpansAll_subset statements member)

end Stmt

namespace SourceFile

/-- The statements that are read from a file; there are none if it is not a program. -/
def body (file : SourceFile) : List Stmt :=
  match Program.parse file.path file.source with
  | .ok program => program.body
  | .error _ => []

/-- The spans of the nodes that are read from a file. -/
def spans (file : SourceFile) : List Span :=
  Stmt.spansAll file.body

/-- The spans of those nodes of a file that are evaluated later than its top level. -/
def deferredSpans (file : SourceFile) : List Span :=
  Stmt.deferredSpansAll file.body

/-- The body of a file is that of its program. -/
theorem body_of_parse {file : SourceFile} {program : Program}
    (parsed : Program.parse file.path file.source = .ok program) : file.body = program.body := by
  rw [body, parsed]

/-- The top level of a file stands in the file. -/
theorem placedAll_of_parse {file : SourceFile} {program : Program}
    (parsed : Program.parse file.path file.source = .ok program) {later : Span → Prop}
    (deferred : ∀ span ∈ file.deferredSpans, later span) :
    Stmt.PlacedAll (· ∈ file.spans) later program.body := by
  unfold spans
  unfold deferredSpans at deferred
  rw [body_of_parse parsed] at deferred ⊢
  exact Stmt.placedAll_of_everySpanAll _ ((Stmt.spansAll_iff _).2 fun _ => id) deferred

/-- What is run later is part of the file. -/
theorem deferredSpans_subset (file : SourceFile) : file.deferredSpans ⊆ file.spans :=
  Stmt.deferredSpansAll_subset file.body

end SourceFile

/-- A text that is not a program is refused by the lexer or by the grammar. -/
theorem Program.kind_of_refused {path source : String} {diagnostic : Diagnostic}
    (refused : Program.parse path source = .error diagnostic) :
    diagnostic.kind = .lexical ∨ diagnostic.kind = .grammar := by
  have attached (found : Diagnostic) : (Parser.attach path source 0 found).kind = found.kind := by
    unfold Parser.attach Diagnostic.withSource
    split
    · split <;> rfl
    · rfl
  unfold Program.parse Program.parseAt at refused
  cases read : Parser.parseWith Parser.program source 0 with
  | ok program =>
      rw [read] at refused
      cases refused
  | error found =>
      rw [read] at refused
      cases refused
      rw [attached]
      unfold Parser.parseWith at read
      dsimp only at read
      split at read
      · next fault faulty =>
        cases read
        obtain ⟨_, _, rfl⟩ := Option.map_eq_some_iff.1 faulty
        exact .inl rfl
      · unfold Parser.runOn at read
        dsimp only at read
        split at read
        · cases read
        · cases read
          exact .inr rfl

end ScopeScript
