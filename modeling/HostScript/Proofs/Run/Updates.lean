import HostScript.Proofs.Heap.Frames
import HostScript.Proofs.Number.Whole
import HostScript.Proofs.Run.Outcome
import HostScript.Proofs.Value.Yield
import HostScript.Syntax.Check

/-!
# Updates are neither lost nor doubled

A postfix update beneath an operator writes only once the operator has its result, all other
updates write at once. Whichever way the updates of an expression are spread over the two, each of
them adds its amount to the current value exactly once.

`Counts` lists the updates of an expression over one variable. `Settles` is what an action does to
that variable; it composes along binds (`Settles.bind`), so that the updates of an expression are
accounted for from those of its parts. An operand accounts for its updates in two lots, those that
it makes and those that it leaves to its operator (`OperandSettles`).

* `exists_resolve_after_updates`: an expression ends, and the variable has changed by the number of
  increments less the number of decrements.
-/

namespace HostScript

/-! ## The amounts of updates -/

namespace UpdateOp

/-- The whole number that the update adds. -/
def amount : UpdateOp → Int
  | increment => 1
  | decrement => -1

/-- What updates add together. -/
def total (ops : List UpdateOp) : Int := (ops.map amount).sum

/-- What an update adds to a number is its amount. -/
theorem toInt?_delta (op : UpdateOp) : Number.toInt? op.delta = some op.amount := by
  cases op <;> decide

@[simp] theorem total_nil : total [] = 0 := rfl

@[simp] theorem total_cons (op : UpdateOp) (ops : List UpdateOp) :
    total (op :: ops) = op.amount + total ops := by
  simp [total]

@[simp] theorem total_append (first second : List UpdateOp) :
    total (first ++ second) = total first + total second := by
  simp [total]

theorem total_eq_of_perm {ops ops' : List UpdateOp} (h : ops.Perm ops') : total ops = total ops' :=
  (h.map amount).sum_eq

/-- In total, the increments less the decrements. -/
theorem total_eq_count (ops : List UpdateOp) :
    total ops = ops.count increment - ops.count decrement := by
  induction ops with
  | nil => rfl
  | cons op ops ih =>
    rw [total_cons, ih]
    cases op <;> simp [amount] <;> omega

/-- So many updates take a value no further away than there are updates, which is what keeps it
below the bound. -/
theorem natAbs_total_le (ops : List UpdateOp) : (total ops).natAbs ≤ ops.length := by
  induction ops with
  | nil => rfl
  | cons op ops ih =>
    have hone : op.amount.natAbs = 1 := by cases op <;> rfl
    rw [total_cons, List.length_cons]
    omega

end UpdateOp

/-! ## Expressions over one variable -/

mutual

/-- An expression of numbers, the variable `x`, its updates and operators, with the updates that it
contains in the order of the source. -/
inductive Counts (x : String) : Node → List UpdateOp → Prop where
  | number (span : Option Span) (n : Float) : Counts x (.mk span (.literal (.number n))) []
  | read (span : Option Span) : Counts x (.mk span (.identifier x)) []
  | update (span span' : Option Span) (op : UpdateOp) (leading : Bool) :
      Counts x (.mk span (.updateExpression op.symbol leading (.mk span' (.identifier x)))) [op]
  | unary (span : Option Span) (op : UnaryOp) {argument : Node} {ops : List UpdateOp}
      (argumentCounts : Counts x argument ops) :
      Counts x (.mk span (.unaryExpression op.symbol argument)) ops
  | binary (span : Option Span) {op : BinaryOp} (plain : op ≠ .contains) {left right : Node}
      {first second : List UpdateOp} (leftCounts : Counts x left first)
      (rightCounts : Counts x right second) :
      Counts x (.mk span (.binaryExpression op.symbol left right)) (first ++ second)
  | logical (span : Option Span) (op : LogicalOp) {left right : Node}
      {first second : List UpdateOp} (leftCounts : Counts x left first)
      (rightCounts : Counts x right second) :
      Counts x (.mk span (.logicalExpression op.symbol left right)) (first ++ second)
  | sequence (span : Option Span) {expressions : List Node} {ops : List UpdateOp}
      (allCount : CountsAll x expressions ops) :
      Counts x (.mk span (.sequenceExpression expressions)) ops

/-- Such expressions one after another. -/
inductive CountsAll (x : String) : List Node → List UpdateOp → Prop where
  | nil : CountsAll x [] []
  | cons {node : Node} {rest : List Node} {first second : List UpdateOp}
      (nodeCounts : Counts x node first) (restCount : CountsAll x rest second) :
      CountsAll x (node :: rest) (first ++ second)

end

/-! ## What a name is bound to -/

/-- From `env`, the frame of `owner` is the one that binds `x`, to the whole number `k`. -/
structure Env.Tracks (env owner : Env) (x : String) (k : Int) (w : World) : Prop where
  owner : env.ownerOf w.heap x = some owner
  whole : ∃ f, env.resolve w.heap x = some (.number f) ∧ Number.toInt? f = some k

namespace Env

variable {env owner : Env} {x : String} {k : Int} {w : World}

/-- A name that resolves to a whole number has an owner, and the number is kept there. -/
theorem exists_tracks {f : Float} (hx : env.resolve w.heap x = some (.number f))
    (hf : Number.toInt? f = some k) : ∃ owner, env.Tracks owner x k w := by
  have hsome : (env.ownerOf w.heap x).isSome := by rw [isSome_ownerOf, hx]; rfl
  obtain ⟨owner, howner⟩ := Option.isSome_iff_exists.1 hsome
  exact ⟨owner, howner, f, hx, hf⟩

/-- A definition in the frame that owns a name leaves it the owner. -/
theorem Tracks.define {v : Float} {k' : Int} (h : env.Tracks owner x k w)
    (hv : Number.toInt? v = some k') {w' : World}
    (hw' : w'.heap = owner.define w.heap x (.number v)) : env.Tracks owner x k' w' := by
  obtain ⟨f, hf, -⟩ := h.whole
  have hlookup : (w.heap.frame owner.frame).lookup x = some (.number f) := by
    rw [lookup_of_ownerOf h.owner, hf]
  have hnew : (w'.heap.frame owner.frame).lookup x = some (.number v) := by
    rw [hw', Env.define, Heap.frame_modifyFrame_self _ _ (Heap.cell_of_lookup hlookup),
      Frame.lookup_define, if_pos rfl]
  -- The frames on the way to the owner are the same, and no name was added to one before it.
  have hchain : w'.heap.chain env.frame = w.heap.chain env.frame := by
    rw [hw']
    exact Heap.chain_congr (P := fun _ => True) (fun _ _ _ _ => trivial)
      (fun a _ => Heap.parent_define w.heap owner x (.number v) a) trivial
  have howner : env.ownerOf w'.heap x = some owner := by
    rw [← h.owner, ownerOf, ownerOf, hchain]
    congr 1
    refine List.find?_congr fun a _ => ?_
    by_cases ha : a = owner.frame
    · rw [ha, Frame.binds, Frame.binds, hnew, hlookup]
      rfl
    · rw [hw', Env.define, Heap.frame_modifyFrame_of_ne _ _ ha]
  exact ⟨howner, v, by rw [← lookup_of_ownerOf howner, hnew], hv⟩

end Env

/-! ## Actions and the updates they make -/

/-- An action that ends wherever `env` tracks `x`, with an answer as `P` tells, and has then changed
`x` by the updates `ops`. Numbers beyond `2 ^ 53` are not met on the way. -/
def Settles {α : Type} (env owner : Env) (x : String) (action : Action α) (ops : List UpdateOp)
    (P : α → Prop) : Prop :=
  ∀ (w : World) (k : Int), env.Tracks owner x k w → k.natAbs + ops.length ≤ 2 ^ 53 →
    ∃ a w', action w = .done a w' ∧ P a ∧ env.Tracks owner x (k + UpdateOp.total ops) w'

section Settling

variable {α β : Type} {env owner : Env} {x : String} {ops ops' : List UpdateOp} {P Q : α → Prop}

/-- An action that changes nothing. -/
theorem settles_of_done {action : Action α}
    (h : ∀ (w : World) (k : Int), env.Tracks owner x k w → ∃ a, action w = .done a w ∧ P a) :
    Settles env owner x action [] P := by
  intro w k hk _
  obtain ⟨a, ha, hP⟩ := h w k hk
  exact ⟨a, w, ha, hP, by simpa using hk⟩

theorem settles_pure {a : α} (ha : P a) : Settles env owner x (pure a : Action α) [] P :=
  settles_of_done fun _ _ _ => ⟨a, rfl, ha⟩

/-- Two actions in a row make the updates of the first and then those of the second. -/
theorem Settles.bind {action : Action α} {next : α → Action β} {R : β → Prop}
    (haction : Settles env owner x action ops P)
    (hnext : ∀ a, P a → Settles env owner x (next a) ops' R) :
    Settles env owner x (action >>= next) (ops ++ ops') R := by
  -- The bound holds for all the updates together, and so for each of the two lots.
  intro w k hk hbound
  have hsmall := UpdateOp.natAbs_total_le ops
  rw [List.length_append] at hbound
  obtain ⟨a, w₁, ha, hP, hk₁⟩ := haction w k hk (by omega)
  obtain ⟨b, w₂, hb, hR, hk₂⟩ := hnext a hP w₁ _ hk₁ (by omega)
  refine ⟨b, w₂, (Action.bind_of_done ha).trans hb, hR, ?_⟩
  rwa [UpdateOp.total_append, ← Int.add_assoc]

/-- Only how many updates there are of each kind tells, since they are sums. -/
theorem Settles.perm {action : Action α} (h : Settles env owner x action ops P)
    (hperm : ops.Perm ops') : Settles env owner x action ops' P := by
  intro w k hk hbound
  rw [← UpdateOp.total_eq_of_perm hperm]
  exact h w k hk (by rwa [hperm.length_eq])

theorem settles_query {f : Heap → Option α} (hf : ∀ h, ∃ a, f h = some a ∧ P a) :
    Settles env owner x (Action.query f) [] P :=
  settles_of_done fun w _ _ => by
    obtain ⟨a, ha, hP⟩ := hf w.heap
    exact ⟨a, Action.query_of_eq_some ha, hP⟩

/-- A question to the heap that has an answer makes no update. -/
theorem settles_queryExcept {f : Heap → Option (Except EvalError α)}
    (hf : ∀ h, ∃ a, f h = some (.ok a) ∧ P a) : Settles env owner x (Action.queryExcept f) [] P :=
  settles_of_done fun w _ _ => by
    obtain ⟨a, ha, hP⟩ := hf w.heap
    exact ⟨a, Action.queryExcept_of_eq_ok ha, hP⟩

end Settling

/-! ## Places and updates -/

/-- A value that is no handle. -/
abbrev Value.Plain (v : Value) : Prop := v.addr? = none

section Updating

variable {env owner : Env} {x : String}

theorem settles_get : Settles env owner x (env.get x) [] Value.Plain :=
  settles_of_done fun w k hk => by
    obtain ⟨f, hf, -⟩ := hk.whole
    exact ⟨.number f, by rw [Env.get, hf], rfl⟩

/-- The target of an update of `x` is the place where `x` is bound. -/
theorem settles_place (call : Caller) (limit : Nat) :
    Settles env owner x ((Target.name x).place call limit env) [] (· = .binding owner x) :=
  settles_of_done fun w k hk => by
    refine ⟨Place.ofName env x w.heap, by rw [Target.place]; rfl, ?_⟩
    rw [Place.ofName, hk.owner]
    rfl

/-- The place of the variable reads as the number that is tracked. -/
theorem readNumber_of_tracks {k : Int} {w : World} (hk : env.Tracks owner x k w) :
    ∃ f, (Place.binding owner x).readNumber w = .done f w ∧ Number.toInt? f = some k := by
  obtain ⟨f, hf, hwhole⟩ := hk.whole
  have hget : owner.get x w = .done (.number f) w := by
    rw [Env.get, Env.resolve_of_ownerOf hk.owner, hf]
  refine ⟨f, ?_, hwhole⟩
  rw [Place.readNumber, Place.read, Action.bind_of_done hget]
  rfl

theorem settles_readNumber :
    Settles env owner x (Place.binding owner x).readNumber [] fun _ => True :=
  settles_of_done fun w k hk => by
    obtain ⟨f, hf, -⟩ := readNumber_of_tracks hk
    exact ⟨f, hf, trivial⟩

/-- An update adds its amount to what the name is bound to at that moment. -/
theorem settles_update (op : UpdateOp) :
    Settles env owner x ((Place.binding owner x).update op) [op] fun _ => True := by
  intro w k hk hbound
  obtain ⟨f, hread, hwhole⟩ := readNumber_of_tracks hk
  -- Neither the number nor the sum is beyond the bound, so nothing is rounded.
  have hsum : Number.toInt? (f + op.delta) = some (k + op.amount) := by
    refine Number.toInt?_add hwhole op.toInt?_delta ?_
    have hone := UpdateOp.natAbs_total_le [op]
    simp only [UpdateOp.total_cons, UpdateOp.total_nil, List.length_singleton] at hone hbound
    omega
  have hwrite : ∃ w', (Place.binding owner x).update op w = .done (f, f + op.delta) w' ∧
      w'.heap = owner.define w.heap x (.number (f + op.delta)) :=
    ⟨_, by rw [Place.update, Action.bind_of_done hread]; rfl, rfl⟩
  obtain ⟨w', hupdate, hheap⟩ := hwrite
  refine ⟨(f, f + op.delta), w', hupdate, trivial, ?_⟩
  rw [UpdateOp.total_cons, UpdateOp.total_nil, Int.add_zero]
  exact hk.define hsum hheap

/-- The updates that wait for an operator, all of the place where `x` is bound. -/
def waitingUpdates (owner : Env) (x : String) (ops : List UpdateOp) : List (Place × UpdateOp) :=
  ops.map fun op => (.binding owner x, op)

/-- Updates that waited are made when they are performed, each of them once. -/
theorem settles_performAll (ops : List UpdateOp) :
    Settles env owner x (performAll (waitingUpdates owner x ops)) ops fun _ => True := by
  induction ops with
  | nil => exact settles_pure trivial
  | cons op ops ih => exact (settles_update op).bind fun _ _ => ih

end Updating

/-! ## Expressions and operands -/

/-- An operand makes the first of its updates and leaves the rest to its operator. -/
def OperandSettles (env owner : Env) (x : String)
    (operand : Action (Value × List (Place × UpdateOp))) (ops : List UpdateOp) : Prop :=
  ∃ made left, ops = made ++ left ∧
    Settles env owner x operand made fun r => r.1.Plain ∧ r.2 = waitingUpdates owner x left

/-- The code of an expression, and the code of the same expression as an operand, account for the
updates `ops` of the variable `x`. -/
structure Expr.Accounts (x : String) (expr : Expr) (ops : List UpdateOp) : Prop where
  settles (call : Caller) (limit : Nat) (env owner : Env) :
    Settles env owner x (expr.eval call limit env) ops Value.Plain
  operand (call : Caller) (limit : Nat) (env owner : Env) :
    OperandSettles env owner x ((Operand.ofExpr expr).eval call limit env) ops
  /-- A name makes no updates. -/
  ofName : ∀ name, expr = .ident name → ops = []

namespace Expr

variable {x : String} {ops first second : List UpdateOp}

/-- An expression that is no postfix update leaves nothing to an operator. -/
theorem accounts_of_plain {expr : Expr} (hplain : Operand.ofExpr expr = .plain expr)
    (hname : ∀ name, expr = .ident name → ops = [])
    (hexpr : ∀ call limit env owner,
      Settles env owner x (expr.eval call limit env) ops Value.Plain) : expr.Accounts x ops where
  settles := hexpr
  operand call limit env owner := by
    refine ⟨ops, [], (List.append_nil ops).symm, ?_⟩
    rw [hplain, Operand.eval, ← List.append_nil ops]
    exact (hexpr call limit env owner).bind fun v hv => settles_pure ⟨hv, rfl⟩
  ofName := hname

theorem accounts_number (x : String) (n : Float) : (literal (.number n)).Accounts x [] :=
  accounts_of_plain rfl nofun fun call limit env owner => by
    rw [eval]
    exact settles_pure rfl

theorem accounts_read (x : String) : (ident x).Accounts x [] :=
  accounts_of_plain rfl (fun _ _ => rfl) fun call limit env owner => by
    rw [eval]
    exact settles_get

/-- A prefix update makes its update at once. -/
theorem settles_update (op : UpdateOp) (yieldsNew : Bool) (call : Caller) (limit : Nat)
    (env owner : Env) :
    Settles env owner x ((update op yieldsNew (.name x)).eval call limit env) [op] Value.Plain := by
  rw [eval]
  refine (settles_place call limit).bind fun place hplace => ?_
  rw [hplace]
  exact (HostScript.settles_update op).bind fun _ _ => settles_pure rfl

/-- As an operand, an update either is made at once or leaves the one to its operator. -/
theorem accounts_update (op : UpdateOp) (yieldsNew : Bool) :
    (update op yieldsNew (.name x)).Accounts x [op] := by
  cases yieldsNew with
  | true => exact accounts_of_plain rfl nofun (settles_update op true)
  | false =>
    refine ⟨settles_update op false, fun call limit env owner => ⟨[], [op], rfl, ?_⟩, nofun⟩
    rw [Operand.ofExpr, Operand.eval]
    refine (settles_place call limit).bind fun place hplace => ?_
    rw [hplace]
    exact settles_readNumber.bind fun f _ => settles_pure ⟨rfl, rfl⟩

theorem settles_unary (op : UnaryOp) {operand : Expr} {call : Caller} {limit : Nat}
    {env owner : Env}
    (hoperand : Settles env owner x (operand.eval call limit env) ops Value.Plain) :
    Settles env owner x ((unary op operand).eval call limit env) ops Value.Plain := by
  rw [eval, ← List.append_nil ops]
  refine hoperand.bind fun v hv => settles_query fun h => ?_
  obtain ⟨result, hresult⟩ := op.exists_apply_of_plain h hv
  exact ⟨result, hresult, UnaryOp.addr?_of_apply hresult⟩

/-- An operator makes the updates of its one operand. `typeof` does not evaluate a name, but a name
makes no updates either. -/
theorem accounts_ofUnary (op : UnaryOp) {operand : Expr} (hoperand : operand.Accounts x ops) :
    (ofUnary op operand).Accounts x ops := by
  unfold ofUnary
  split
  · next name =>
    rw [hoperand.ofName name rfl]
    refine accounts_of_plain rfl nofun fun call limit env owner => ?_
    rw [eval]
    exact settles_of_done fun w _ _ => ⟨_, rfl, rfl⟩
  · exact accounts_of_plain rfl (fun _ hname => by cases hname) fun call limit env owner =>
      settles_unary op (hoperand.settles call limit env owner)

/-- What the operands have left undone is done once the operator has its result. -/
theorem settles_binary {op : BinaryOp} (hop : op ≠ .contains) {left right : Operand}
    {call : Caller} {limit : Nat} {env owner : Env}
    (hleft : OperandSettles env owner x (left.eval call limit env) first)
    (hright : OperandSettles env owner x (right.eval call limit env) second) :
    Settles env owner x ((binary op left right).eval call limit env) (first ++ second)
      Value.Plain := by
  obtain ⟨made, rest, rfl, hleft⟩ := hleft
  obtain ⟨made', rest', rfl, hright⟩ := hright
  -- The updates in the order in which they are made, against that of the operands.
  have hperm : (made ++ (made' ++ ([] ++ ((rest ++ rest') ++ [])))).Perm
      (made ++ rest ++ (made' ++ rest')) := by
    rw [List.nil_append, List.append_nil, List.append_assoc]
    refine (List.Perm.append_left made ?_)
    rw [← List.append_assoc, ← List.append_assoc]
    exact List.perm_append_comm.append_right rest'
  refine Settles.perm ?_ hperm
  rw [eval]
  refine hleft.bind fun lhs hlhs => hright.bind fun rhs hrhs => ?_
  obtain ⟨a, waits⟩ := lhs
  obtain ⟨b, waits'⟩ := rhs
  obtain ⟨ha, hwaits⟩ := hlhs
  obtain ⟨hb, hwaits'⟩ := hrhs
  refine (settles_queryExcept (P := Value.Plain) fun h => ?_).bind fun v hv => ?_
  · obtain ⟨v, hv⟩ := BinaryOp.exists_apply_of_plain h hop ha hb
    exact ⟨v, hv, BinaryOp.addr?_of_apply hv⟩
  -- All that has waited is performed in one go behind the operator.
  · have hall : waits ++ waits' = waitingUpdates owner x (rest ++ rest') := by
      rw [waitingUpdates, List.map_append]
      exact congrArg₂ (· ++ ·) hwaits hwaits'
    rw [hall]
    exact (settles_performAll (rest ++ rest')).bind fun _ _ => settles_pure hv

theorem accounts_binary {op : BinaryOp} (hop : op ≠ .contains) {left right : Expr}
    (hleft : left.Accounts x first) (hright : right.Accounts x second) :
    (binary op (.ofExpr left) (.ofExpr right)).Accounts x (first ++ second) :=
  accounts_of_plain rfl nofun fun call limit env owner =>
    settles_binary hop (hleft.operand call limit env owner) (hright.operand call limit env owner)

theorem accounts_logical (op : LogicalOp) {left right : Expr} (hleft : left.Accounts x first)
    (hright : right.Accounts x second) : (logical op left right).Accounts x (first ++ second) :=
  accounts_of_plain rfl nofun fun call limit env owner => by
    rw [eval, ← List.append_nil second]
    refine (hleft.settles call limit env owner).bind fun a ha =>
      (hright.settles call limit env owner).bind fun b hb => settles_pure ?_
    rcases op.choose_eq a b with h | h <;> rw [h] <;> assumption

/-- A sequence accounts for what its expressions account for; none of its updates waits. -/
theorem accounts_sequence {expressions : List Expr}
    (hall : ∀ call limit env owner last, Value.Plain last →
      Settles env owner x (evalSequence call limit expressions env last) ops Value.Plain) :
    (sequence expressions).Accounts x ops :=
  accounts_of_plain rfl nofun fun call limit env owner => by
    rw [eval]
    exact hall call limit env owner .undefined rfl

end Expr

mutual

/-- An expression whose updates are counted compiles, and accounts for just these. By induction on
its tree, one case for each form that updates may stand in. -/
theorem Counts.accounts {x : String} {node : Node} {ops : List UpdateOp} (h : Counts x node ops) :
    ∃ expr, node.toExpr = .ok expr ∧ expr.Accounts x ops := by
  cases h with
  | number span n => exact ⟨_, by rw [Node.toExpr], Expr.accounts_number x n⟩
  | read span => exact ⟨_, by rw [Node.toExpr], Expr.accounts_read x⟩
  | update span span' op leading =>
    refine ⟨.update op leading (.name x), ?_, Expr.accounts_update op leading⟩
    rw [Node.toExpr, Node.operator, op.ofSymbol?_symbol, Node.toTarget]
    rfl
  | unary span op hargument =>
    obtain ⟨operand, hcode, hoperand⟩ := hargument.accounts
    refine ⟨.ofUnary op operand, ?_, Expr.accounts_ofUnary op hoperand⟩
    rw [Node.toExpr, Node.operator, op.ofSymbol?_symbol, hcode]
    rfl
  | @binary span op hop left right first second hleft hright =>
    -- Both operands account for their updates, the left one before the right one.
    obtain ⟨l, hl, hfirst⟩ := hleft.accounts
    obtain ⟨r, hr, hsecond⟩ := hright.accounts
    refine ⟨.binary op (.ofExpr l) (.ofExpr r), ?_, Expr.accounts_binary hop hfirst hsecond⟩
    rw [Node.toExpr, Node.operator, op.ofSymbol?_symbol, hl, hr]
    rfl
  | logical span op hleft hright =>
    obtain ⟨l, hl, hfirst⟩ := hleft.accounts
    obtain ⟨r, hr, hsecond⟩ := hright.accounts
    refine ⟨.logical op l r, ?_, Expr.accounts_logical op hfirst hsecond⟩
    rw [Node.toExpr, Node.operator, op.ofSymbol?_symbol, hl, hr]
    rfl
  | sequence span hall =>
    obtain ⟨exprs, hcode, hexprs⟩ := hall.accounts
    refine ⟨.sequence exprs, ?_, Expr.accounts_sequence hexprs⟩
    rw [Node.toExpr, hcode]
    rfl

/-- The expressions of a sequence compile, and make their updates one after another. -/
theorem CountsAll.accounts {x : String} {nodes : List Node} {ops : List UpdateOp}
    (h : CountsAll x nodes ops) :
    ∃ exprs, toExprs nodes = .ok exprs ∧ ∀ call limit env owner last, Value.Plain last →
      Settles env owner x (evalSequence call limit exprs env last) ops Value.Plain := by
  cases h with
  | nil =>
    refine ⟨[], by rw [toExprs], fun call limit env owner last hlast => ?_⟩
    rw [evalSequence]
    exact settles_pure hlast
  | cons hnode hrest =>
    obtain ⟨expr, hcode, hexpr⟩ := hnode.accounts
    obtain ⟨exprs, hcodes, hexprs⟩ := hrest.accounts
    refine ⟨expr :: exprs, by rw [toExprs, hcode, hcodes]; rfl,
      fun call limit env owner last _ => ?_⟩
    rw [evalSequence]
    exact (hexpr.settles call limit env owner).bind fun v hv => hexprs call limit env owner v hv

end

/-- An expression of numbers, reads of `x`, updates of `x`, unary operators, binary operators other
than `in`, logical operators and sequences compiles, and its evaluation ends wherever `x` resolves
to a whole number that stays within `2 ^ 53` under so many updates. Afterwards `x` resolves to that
number and one for each increment less one for each decrement, however the updates nest. -/
theorem exists_resolve_after_updates {x : String} {node : Node} {ops : List UpdateOp}
    (hnode : Counts x node ops) (call : Caller) (limit : Nat) (env : Env) (w : World) {f : Float}
    {n : Int} (hx : env.resolve w.heap x = some (.number f)) (hf : Number.toInt? f = some n)
    (hn : n.natAbs + ops.length ≤ 2 ^ 53) :
    ∃ expr v w' g, node.toExpr = .ok expr ∧ expr.eval call limit env w = .done v w' ∧
      env.resolve w'.heap x = some (.number g) ∧
      Number.toInt? g = some (n + ops.count .increment - ops.count .decrement) := by
  obtain ⟨expr, hcode, hexpr⟩ := hnode.accounts
  obtain ⟨owner, htracks⟩ := Env.exists_tracks hx hf
  obtain ⟨v, w', heval, -, hafter⟩ := hexpr.settles call limit env owner w n htracks hn
  obtain ⟨g, hg, hwhole⟩ := hafter.whole
  refine ⟨expr, v, w', g, hcode, heval, hg, ?_⟩
  rw [hwhole, UpdateOp.total_eq_count]
  congr 1
  omega

/-- The expression `(x++ + ++x) - x--`: two of its updates wait, each for another operator. -/
def mixedUpdates : Node :=
  .bare (.binaryExpression "-"
    (.bare (.binaryExpression "+"
      (.bare (.updateExpression "++" false (.bare (.identifier "x"))))
      (.bare (.updateExpression "++" true (.bare (.identifier "x"))))))
    (.bare (.updateExpression "--" false (.bare (.identifier "x")))))

/-- The updates of the example in the order of the text. -/
theorem mixedUpdates_counts : Counts "x" mixedUpdates [.increment, .increment, .decrement] :=
  .binary none (show BinaryOp.sub ≠ .contains by decide)
    (.binary none (show BinaryOp.add ≠ .contains by decide) (.update none none .increment false)
      (.update none none .increment true))
    (.update none none .decrement false)

/-- A world whose only cell is a root frame with `x` in its host layer. -/
def fiveInHostLayer : World where
  heap := { cells := #[.frame { host := some (.ofList [("x", .number 5)]) }] }

theorem mixedUpdates_add_one :
    ∃ expr v w' g, mixedUpdates.toExpr = .ok expr ∧
      expr.eval (fun _ _ _ => Action.exhaust) 0 ⟨0, 0⟩ fiveInHostLayer = .done v w' ∧
      Env.resolve ⟨0, 0⟩ w'.heap "x" = some (.number g) ∧
      Number.toInt? g = some (5 + 2 - 1) :=
  exists_resolve_after_updates mixedUpdates_counts _ 0 ⟨0, 0⟩ fiveInHostLayer rfl
    (by decide : Number.toInt? 5 = some 5) (by decide)

end HostScript
