import HostScript.Proofs.Run.Compound
import HostScript.Proofs.Run.Deferred
import HostScript.Tree.Build

/-!
# Templates as sums

A template converts each value to text as soon as it has it, and a postfix update in it writes at
once. The sum `q0 + e1 + q1 + ... + en + qn` of its texts and expressions nests operators instead,
and an update in it waits for one of them. What stands on the left of each of them is a string,
however: with a string the sum looks at nothing but the text of the other operand, and a number
always has one. So the waiting is not noticed.

* `Expr.eval_add_of_text`: a sum with a string on the left is a string, made without waiting.
* `evalSegments_append`, `templateSegments_concat`: the segments of a template, up to the last one
  and from there.
* `Node.IsChain`: a tree is the sum of some texts and expressions.
* `template_sameMeaning_chain`: a template and its sum are both refused or do the same.
-/

namespace HostScript

/-! ## Sums with a string on the left -/

/-- A string and any value are joined as texts. -/
theorem Value.plus_string (h : Heap) (s : String) (v : Value) :
    plus h (.string s) v = (v.text h).map fun t => .string (s ++ t) := by
  have hs : (Value.string s).toPrimitive h = some (.string s) := rfl
  rw [plus, hs, Option.bind_eq_bind, Option.bind_some, toPrimitive]
  split
  · -- A compound value becomes its text first, and a text is its own text.
    cases v.text h with
    | none => rfl
    | some t => simp [text, textUpTo]
  · rfl

/-- `+` with a string on the left looks at the text of its right operand, and nothing else. -/
theorem BinaryOp.query_add_string (s : String) (v : Value) :
    (Action.queryExcept fun h => add.apply h (.string s) v) = (do
      let t ← Action.query v.text
      return .string (s ++ t)) := by
  funext w
  rw [Action.bind_run, Action.queryExcept, Action.query, apply, succeed, Value.plus_string]
  cases v.text w.heap <;> rfl

/-- A string is its own text. -/
theorem Value.query_text_string (s : String) : Action.query (Value.string s).text = pure s := by
  funext w
  simp [Action.query, text, textUpTo]

/-- A sum whose left operand always is a string is one again. An update on the right may as well
happen at once. -/
theorem Expr.eval_add_of_text {call : Caller} {limit : Nat} {env : Env} {left : Expr}
    {text : Action String} (hleft : left.eval call limit env = .string <$> text) (right : Expr) :
    (binary .add (.plain left) (.ofExpr right)).eval call limit env = .string <$> (do
      let s ← text
      let v ← right.eval call limit env
      let t ← Action.query v.text
      return s ++ t) := by
  have hnumber (s : String) (n : Float) :
      ∃ v, (Action.queryExcept fun h => BinaryOp.add.apply h (.string s) (.number n)) = pure v := by
    rw [BinaryOp.query_add_string]
    exact ⟨.string (s ++ Number.text n), by simp [Value.text, Value.textUpTo]; rfl⟩
  rw [eval, Operand.eval, hleft]
  simp only [map_eq_pure_bind, bind_assoc, pure_bind, List.nil_append]
  refine bind_congr fun s => (Operand.eval_ofExpr call limit env right
    (fun v => Action.queryExcept fun h => BinaryOp.add.apply h (.string s) v) (hnumber s)).trans ?_
  simp only [BinaryOp.query_add_string]

/-! ## Segments -/

section Segments

variable (call : Caller) (limit : Nat) (env : Env)

/-- Segments are appended one after another, each to the text before it. -/
theorem evalSegments_append : ∀ (first second : List (String × Option Expr)) (before : String),
    evalSegments call limit (first ++ second) env before = (do
      let v ← evalSegments call limit first env before
      evalSegments call limit second env (v.string?.getD ""))
  | [], second, before => by
    rw [List.nil_append, evalSegments, pure_bind]
    rfl
  | (text, none) :: first, second, before => by
    rw [List.cons_append, evalSegments, evalSegments, evalSegments_append first second]
  | (text, some expr) :: first, second, before => by
    simp only [List.cons_append, evalSegments, evalSegments_append first second, bind_assoc]

end Segments

/-- One more text and expression: the text that was the last one has an expression behind it now. -/
theorem templateSegments_concat : ∀ {quasis : List TemplateElement} {exprs : List Expr},
    quasis.length = exprs.length + 1 → ∃ front text, ∀ quasi expr,
      templateSegments quasis exprs = front ++ [(text, none)] ∧
        templateSegments (quasis ++ [quasi]) (exprs ++ [expr]) =
          front ++ [(text, some expr), (quasi.text, none)]
  | [last], [], _ => ⟨[], last.text, fun _ _ => ⟨rfl, rfl⟩⟩
  | _ :: _ :: _, [], hlength => by simp at hlength
  | first :: quasis, expr :: exprs, hlength => by
    obtain ⟨front, text, hfront⟩ := templateSegments_concat (Nat.succ.inj hlength)
    refine ⟨(first.text, some expr) :: front, text, fun quasi other => ?_⟩
    obtain ⟨hbefore, hafter⟩ := hfront quasi other
    exact ⟨congrArg ((first.text, some expr) :: ·) hbefore,
      congrArg ((first.text, some expr) :: ·) hafter⟩

/-! ## Trees -/

/-- Expressions are compiled in the order of the source, the last one last. -/
theorem toExprs_concat (nodes : List Node) (node : Node) :
    toExprs (nodes ++ [node]) = (do
      let exprs ← toExprs nodes
      let expr ← node.toExpr
      return exprs ++ [expr]) := by
  induction nodes with
  | nil => simp [toExprs]; rfl
  | cons first rest ih => simp [toExprs, ih]

namespace Node

/-- A tree is the chain of sums `q0 + e1 + q1 + ... + en + qn` of some texts and expressions, from
the left and with the texts as string literals. -/
inductive IsChain : List TemplateElement → List Node → Node → Prop where
  | text (span : Option Span) (quasi : TemplateElement) :
    IsChain [quasi] [] (.mk span (.literal (.string quasi.text)))
  | link {quasis : List TemplateElement} {exprs : List Node} {chain : Node}
    (hchain : IsChain quasis exprs chain) (expr : Node) (quasi : TemplateElement)
    (inner text outer : Option Span) :
    IsChain (quasis ++ [quasi]) (exprs ++ [expr])
      (.mk outer (.binaryExpression "+" (.mk inner (.binaryExpression "+" chain expr))
        (.mk text (.literal (.string quasi.text)))))

end Node

/-- Every template whose texts enclose its expressions has such a chain. -/
theorem Node.exists_isChain {quasis : List TemplateElement} {exprs : List Node}
    (hlength : quasis.length = exprs.length + 1) : ∃ chain, Node.IsChain quasis exprs chain := by
  induction exprs using List.reverseRecOn generalizing quasis with
  | nil =>
    obtain ⟨quasi, rfl⟩ := List.length_eq_one_iff.1 hlength
    exact ⟨_, .text none quasi⟩
  | append_singleton exprs expr ih =>
    obtain rfl | ⟨front, quasi, rfl⟩ := List.eq_nil_or_concat' quasis
    · cases hlength
    · obtain ⟨chain, hchain⟩ := @ih front (by simpa using hlength)
      exact ⟨_, hchain.link expr quasi none none none⟩

/-- The code of a chain does what the segments of the template do. -/
structure Expr.JoinsSegments (code : Expr) (quasis : List TemplateElement) (exprs : List Expr) :
    Prop where
  length_eq : quasis.length = exprs.length + 1
  plain : Operand.ofExpr code = .plain code
  eval_eq : ∀ call limit env, code.eval call limit env =
    evalSegments call limit (templateSegments quasis exprs) env ""

/-- A text alone joins the one segment of a template without expressions. -/
theorem Expr.JoinsSegments.text (quasi : TemplateElement) :
    (literal (.string quasi.text)).JoinsSegments [quasi] [] where
  length_eq := rfl
  plain := rfl
  eval_eq call limit env := by
    simp [Expr.eval, templateSegments, evalSegments, Value.ofLiteral]

/-- Adding an expression and a text joins one segment more. What is on the left is a string, so
nothing waits. -/
theorem Expr.JoinsSegments.link {code : Expr} {quasis : List TemplateElement} {exprs : List Expr}
    (h : code.JoinsSegments quasis exprs) (expr : Expr) (quasi : TemplateElement) :
    (binary .add (.plain (binary .add (.plain code) (.ofExpr expr)))
      (.ofExpr (literal (.string quasi.text)))).JoinsSegments (quasis ++ [quasi])
        (exprs ++ [expr]) where
  length_eq := by simp [h.length_eq]
  plain := rfl
  eval_eq call limit env := by
    obtain ⟨front, last, hfront⟩ := templateSegments_concat h.length_eq
    obtain ⟨hbefore, hafter⟩ := hfront quasi expr
    have hcode : code.eval call limit env = .string <$> (do
        let v ← evalSegments call limit front env ""
        return v.string?.getD "" ++ last) := by
      simp only [h.eval_eq, hbefore, evalSegments_append, evalSegments, map_eq_pure_bind,
        bind_assoc, pure_bind]
    rw [eval_add_of_text (eval_add_of_text hcode expr), hafter, evalSegments_append]
    simp only [evalSegments, Expr.eval, Value.ofLiteral, Value.query_text_string, map_eq_pure_bind,
      bind_assoc, pure_bind]

namespace Node

/-- A template and its chain are refused for the same fault, or become code that does the same. -/
theorem IsChain.exists_joins {quasis : List TemplateElement} {exprs : List Node} {chain : Node}
    (h : IsChain quasis exprs chain) :
    (∃ fault, toExprs exprs = .error fault ∧ chain.toExpr = .error fault) ∨
      ∃ codes code, toExprs exprs = .ok codes ∧ chain.toExpr = .ok code ∧
        code.JoinsSegments quasis codes := by
  induction h with
  | text span quasi => exact .inr ⟨[], _, rfl, rfl, .text quasi⟩
  | link hchain expr quasi inner text outer ih =>
    have hplus : BinaryOp.ofSymbol? "+" = some .add := rfl
    simp only [toExprs_concat, toExpr, operator, hplus]
    -- A fault in an earlier expression is found first on both sides.
    rcases ih with ⟨fault, hexprs, hcode⟩ | ⟨codes, code, hexprs, hcode, hjoins⟩
    · exact .inl ⟨fault, by rw [hexprs]; rfl, by rw [hcode]; rfl⟩
    · rw [hexprs, hcode]
      cases hexpr : expr.toExpr with
      | error fault => exact .inl ⟨fault, rfl, rfl⟩
      | ok last =>
        refine .inr ⟨codes ++ [last], _, rfl, rfl, ?_⟩
        rw [hjoins.plain]
        exact hjoins.link last quasi

end Node

/-- A template literal and the chain of sums of its texts and expressions are accepted or refused
alike, and then end alike in every environment, with the same calls of host functions and the same
world afterwards. -/
theorem template_sameMeaning_chain {quasis : List TemplateElement} {exprs : List Node}
    {chain : Node} (hchain : Node.IsChain quasis exprs chain) (span : Option Span) :
    Node.SameMeaning (.mk span (.templateLiteral quasis exprs)) chain := by
  unfold Node.SameMeaning
  rw [Node.toExpr]
  rcases hchain.exists_joins with ⟨fault, hexprs, hcode⟩ | ⟨codes, code, hexprs, hcode, hjoins⟩
  · exact .inl ⟨fault, by rw [hexprs]; rfl, hcode⟩
  · refine .inr ⟨_, code, by rw [hexprs]; rfl, hcode, fun call limit env w => ?_⟩
    rw [Expr.eval, hjoins.eval_eq]

/-- The template with the texts `n=` and `.` around `x++`, where `x` holds 5, and its chain. -/
theorem template_sameMeaning_chain_of_update :
    Node.SameMeaning (Build.template ["n=", "."] [incremented])
        (Build.binary "+" (Build.binary "+" (Build.string "n=") incremented) (Build.string ".")) ∧
      ∃ code u, (Build.template ["n=", "."] [incremented]).toExpr = .ok code ∧
        code.eval (fun _ _ _ => Action.exhaust) 0 ⟨0, 0⟩ oneNumber = .done (.string "n=5.") u ∧
        (Place.binding ⟨0, 0⟩ "x").Holds u.heap (5 + 1) := by
  refine ⟨template_sameMeaning_chain (.link (.text none _) incremented _ none none none) none, ?_⟩
  have hcode : (Build.template ["n=", "."] [incremented]).toExpr = .ok
      (.template [("n=", some (.update .increment false (.name "x"))), (".", none)]) := by
    rw [Build.template, Node.bare, Node.toExpr, incremented, toExprs, toExprs, Node.bare,
      Node.toExpr]
    rfl
  refine ⟨_, { oneNumber with
    heap := Env.define ⟨0, 0⟩ oneNumber.heap "x" (.number (5 + 1))
    definitions := [⟨.assignment, ⟨0, 0⟩, "x", .number (5 + 1)⟩] }, hcode, ?_, ?_⟩
  · simp only [Expr.eval, evalSegments, Target.place]
    rfl
  · exact ⟨.number (5 + 1), rfl, rfl⟩

end HostScript
