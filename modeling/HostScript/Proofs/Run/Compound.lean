import HostScript.Proofs.Heap.Frames
import HostScript.Proofs.Run.Outcome
import HostScript.Proofs.Syntax.Grammar

/-!
# Compound assignment

`x op= e` reads the place of `x`, `x = x op e` looks `x` up as any expression does. Both find the
same value, since the frame that owns a name is the one where a look-up ends; and an expression that
is no postfix update leaves nothing to the operator. So the long form means what the short one does.

* `Place.read_ofName`: the place of a name reads as the name.
* `Expr.eval_compound`: the two forms are the same action.
* `compoundAssignment_sameMeaning`: so they are as syntax trees, which are either both refused or
  both accepted.
-/

namespace HostScript

/-! ## Reading the place of a name -/

/-- The place of a name, read at once, is the name itself, bound or not. -/
theorem Place.read_ofName (env : Env) (name : String) (w : World) :
    (ofName env name w.heap).read w = env.get name w := by
  cases howner : env.ownerOf w.heap name with
  | none =>
    rw [ofName, howner]
    rfl
  | some owner =>
    have hsame : owner.resolve w.heap name = env.resolve w.heap name :=
      Env.resolve_of_ownerOf howner
    rw [ofName, howner]
    show owner.get name w = env.get name w
    rw [Env.get, Env.get, hsame]

/-! ## The two forms as code -/

namespace Expr

variable (call : Caller) (limit : Nat) (op : BinaryOp) (x : String) (e : Expr) (env : Env)

theorem eval_assign_name (value : Expr) :
    (assign .assign (.name x) value).eval call limit env = (do
      let place ← Action.read (Place.ofName env x)
      let new ← value.eval call limit env
      place.write new
      return new) := by
  rw [eval, Target.place]

theorem eval_compound_name :
    (assign (.compound op) (.name x) e).eval call limit env = (do
      let place ← Action.read (Place.ofName env x)
      let current ← place.read
      let operand ← e.eval call limit env
      let new ← Action.queryExcept fun h => op.apply h current operand
      place.write new
      return new) := by
  rw [eval, Target.place]

/-- An operator between an identifier and an expression of which nothing waits. -/
theorem eval_binary_ident :
    (binary op (.plain (.ident x)) (.plain e)).eval call limit env = (do
      let current ← env.get x
      let operand ← e.eval call limit env
      Action.queryExcept fun h => op.apply h current operand) := by
  simp only [eval, Operand.eval, bind_assoc, pure_bind, List.append_nil, performAll, bind_pure]

/-- The short form and the long form are the same action. -/
theorem eval_compound :
    (assign (.compound op) (.name x) e).eval call limit env =
      (assign .assign (.name x) (binary op (.plain (.ident x)) (.plain e))).eval call limit
        env := by
  rw [eval_compound_name, eval_assign_name, eval_binary_ident]
  simp only [bind_assoc]
  funext w
  -- Both know the place by now, and nothing has changed since they found it.
  rw [Action.bind_of_done (Action.read_run _), Action.bind_of_done (Action.read_run _),
    Action.bind_run, Action.bind_run, Place.read_ofName]

end Expr

/-! ## The two forms as syntax trees -/

/-- Only a postfix update waits for its operator. -/
theorem Operand.ofExpr_of_ne {expr : Expr} (hne : ∀ op target, expr ≠ .update op false target) :
    ofExpr expr = .plain expr := by
  unfold ofExpr
  split
  · next op target => exact absurd rfl (hne op target)
  · rfl

theorem AssignOp.ofSymbol?_compound {op : BinaryOp} (hop : op.isAssigning = true) :
    ofSymbol? (op.symbol ++ "=") = some (.compound op) := by
  cases op <;> first | rfl | cases hop

namespace Node

/-- A postfix update, as a node. -/
def IsPostfixUpdate (node : Node) : Prop :=
  ∃ span symbol argument, node = .mk span (.updateExpression symbol false argument)

/-- Two expressions are refused for the same fault, or become code that does the same in every
environment: it ends alike and leaves the same world. -/
def SameMeaning (node node' : Node) : Prop :=
  (∃ fault, node.toExpr = .error fault ∧ node'.toExpr = .error fault) ∨
    ∃ code code', node.toExpr = .ok code ∧ node'.toExpr = .ok code' ∧
      ∀ call limit env w, code.eval call limit env w = code'.eval call limit env w

/-- Code that is an update comes from a node that is one. -/
theorem exists_of_toExpr_eq_update {node : Node} {op : UpdateOp} {leading : Bool} {target : Target}
    (h : node.toExpr = .ok (.update op leading target)) :
    ∃ span symbol argument, node = .mk span (.updateExpression symbol leading argument) := by
  obtain ⟨span, kind⟩ := node
  -- Most kinds of nodes are never code, or become code of a kind of their own.
  cases kind <;> simp only [toExpr, Checked.bind_eq_ok_iff, unsupported, pure, Except.pure,
    Except.ok.injEq, reduceCtorEq, and_false, exists_false] at h
  case updateExpression symbol leading' argument =>
    obtain ⟨_, -, _, -, hupdate⟩ := h
    cases hupdate
    exact ⟨span, symbol, argument, rfl⟩
  case literal value => cases value <;> cases h
  case unaryExpression symbol argument =>
    obtain ⟨op, -, operand, -, hunary⟩ := h
    unfold Expr.ofUnary at hunary
    split at hunary <;> cases hunary
  case callExpression callee arguments =>
    obtain ⟨_, -, function, -, hcall⟩ := h
    unfold Expr.ofCall at hcall
    split at hcall <;> cases hcall
  case memberExpression object property computed =>
    obtain ⟨_, -, hkey⟩ := h
    split at hkey <;> obtain ⟨_, -, ⟨⟩⟩ := Checked.bind_eq_ok_iff.1 hkey

theorem ofExpr_of_not_isPostfixUpdate {node : Node} {code : Expr}
    (hnode : ¬ node.IsPostfixUpdate) (hcode : node.toExpr = .ok code) :
    Operand.ofExpr code = .plain code :=
  Operand.ofExpr_of_ne fun _ _ hupdate =>
    hnode (exists_of_toExpr_eq_update (hupdate ▸ hcode))

end Node

/-- A compound assignment to an identifier and its expansion: where the right-hand side is no
postfix update, they are accepted or refused alike, and then end alike in every environment, with
the same calls of host functions and the same world afterwards. -/
theorem compoundAssignment_sameMeaning (x : String) {op : BinaryOp} (hop : op.isAssigning = true)
    {e : Node} (he : ¬ e.IsPostfixUpdate) (short target long target' sum left : Option Span) :
    Node.SameMeaning
      (.mk short (.assignmentExpression (op.symbol ++ "=") (.mk target (.identifier x)) e))
      (.mk long (.assignmentExpression "=" (.mk target' (.identifier x))
        (.mk sum (.binaryExpression op.symbol (.mk left (.identifier x)) e)))) := by
  have hassign : AssignOp.ofSymbol? "=" = some .assign := rfl
  unfold Node.SameMeaning
  simp only [Node.toExpr, Node.operator, Node.toTarget, AssignOp.ofSymbol?_compound hop, hassign,
    op.ofSymbol?_symbol]
  cases hcode : e.toExpr with
  | error fault => exact .inl ⟨fault, rfl, rfl⟩
  | ok code =>
    refine .inr ⟨_, _, rfl, rfl, fun call limit env w => ?_⟩
    rw [Node.ofExpr_of_not_isPostfixUpdate he hcode, Expr.eval_compound]
    rfl

/-- The right-hand side may assign the identifier itself: `x += (x = 3)` and `x = x + (x = 3)`. -/
theorem compoundAssignment_sameMeaning_of_assignment :
    Node.SameMeaning
      (.bare (.assignmentExpression "+=" (.bare (.identifier "x"))
        (.bare (.assignmentExpression "=" (.bare (.identifier "x"))
          (.bare (.literal (.number 3)))))))
      (.bare (.assignmentExpression "=" (.bare (.identifier "x"))
        (.bare (.binaryExpression "+" (.bare (.identifier "x"))
          (.bare (.assignmentExpression "=" (.bare (.identifier "x"))
            (.bare (.literal (.number 3))))))))) :=
  compoundAssignment_sameMeaning "x" (rfl : BinaryOp.add.isAssigning = true)
    (by rintro ⟨span, symbol, argument, ⟨⟩⟩) none none none none none none

end HostScript
