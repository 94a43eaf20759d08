import HostScript.Proofs.Number.MinusZero
import HostScript.Proofs.Run.Cells
import HostScript.Proofs.Run.Outcome
import HostScript.Proofs.Syntax.Grammar
import HostScript.Run.Evaluate

/-!
# Updates that wait for an operator

A postfix update beneath an operator reads at once and writes later: its place is found and read
when its operand is evaluated, and the write happens once the operator has a result. By then the
place may hold something else; the update adds to what it holds then.

* `Operand.Yields`, `Operand.Fails`, `Performs`, `BinaryEnds`: rules for how operands, waiting
  updates and operators end.
* `deferred_updates_all_or_nothing`: operators end just as the rules say.
* `Performs.holds_foldl`: of the updates that wait for one place none is lost.
* `Operand.eval_ofExpr`: where the operator has a result for every number, waiting changes nothing.
-/

namespace HostScript

/-! ## The rules -/

namespace Operand

variable (call : Caller) (limit : Nat) (env : Env)

/-- An operand yields a value, and the update that waits with it. The place of a waiting update is
found and read; nothing is written. -/
inductive Yields : Operand → World → Value → List (Place × UpdateOp) → World → Prop where
  | plain {expr : Expr} {w u : World} {v : Value} (hexpr : expr.eval call limit env w = .done v u) :
    Yields (.plain expr) w v [] u
  | deferred {op : UpdateOp} {target : Target} {w u : World} {place : Place} {old : Value}
    {n : Float} (hplace : target.place call limit env w = .done place u)
    (hread : place.content u.heap = .ok old) (hnumber : old.toNumber u.heap = some n) :
    Yields (.deferred op target) w (.number n) [(place, op)] u

/-- An operand fails. -/
inductive Fails : Operand → World → EvalError → World → Prop where
  | plain {expr : Expr} {w u : World} {e : EvalError}
    (hexpr : expr.eval call limit env w = .failed e u) : Fails (.plain expr) w e u
  | target {op : UpdateOp} {target : Target} {w u : World} {e : EvalError}
    (htarget : target.place call limit env w = .failed e u) : Fails (.deferred op target) w e u
  | reading {op : UpdateOp} {target : Target} {w u : World} {place : Place} {e : EvalError}
    (hplace : target.place call limit env w = .done place u)
    (hread : place.content u.heap = .error e) : Fails (.deferred op target) w e u

end Operand

/-- Waiting updates are performed one after another, each of them once, up to the first that fails.
Each adds its amount to the number that its place holds at that moment. -/
inductive Performs : List (Place × UpdateOp) → World → Outcome Unit → Prop where
  | nil {w : World} : Performs [] w (.done () w)
  | added {place : Place} {op : UpdateOp} {rest : List (Place × UpdateOp)} {w u : World}
    {o : Outcome Unit} {old : Value} {n : Float} (hread : place.content w.heap = .ok old)
    (hnumber : old.toNumber w.heap = some n)
    (hwrite : place.write (.number (n + op.delta)) w = .done () u) (hrest : Performs rest u o) :
    Performs ((place, op) :: rest) w o
  | unreadable {place : Place} {op : UpdateOp} {rest : List (Place × UpdateOp)} {w : World}
    {e : EvalError} (hread : place.content w.heap = .error e) :
    Performs ((place, op) :: rest) w (.failed e w)
  | refused {place : Place} {op : UpdateOp} {rest : List (Place × UpdateOp)} {w u : World}
    {old : Value} {n : Float} {e : EvalError} (hread : place.content w.heap = .ok old)
    (hnumber : old.toNumber w.heap = some n)
    (hwrite : place.write (.number (n + op.delta)) w = .failed e u) :
    Performs ((place, op) :: rest) w (.failed e u)

section Operators

variable (call : Caller) (limit : Nat) (env : Env)

/-- An operator between two operands ends. Where an operand or the operator itself fails, that is
the end. Otherwise the updates that wait are performed, those of the left operand first, and then
the result is the one that the operator had before. -/
inductive BinaryEnds (op : BinaryOp) (left right : Operand) (w : World) : Outcome Value → Prop where
  | left {e : EvalError} {u : World} (hleft : left.Fails call limit env w e u) :
    BinaryEnds op left right w (.failed e u)
  | right {lhs : Value} {first : List (Place × UpdateOp)} {u₁ u : World} {e : EvalError}
    (hleft : left.Yields call limit env w lhs first u₁)
    (hright : right.Fails call limit env u₁ e u) : BinaryEnds op left right w (.failed e u)
  | operator {lhs rhs : Value} {first second : List (Place × UpdateOp)} {u₁ u : World}
    {e : EvalError} (hleft : left.Yields call limit env w lhs first u₁)
    (hright : right.Yields call limit env u₁ rhs second u)
    (hop : op.apply u.heap lhs rhs = some (.error e)) : BinaryEnds op left right w (.failed e u)
  | performed {lhs rhs result : Value} {first second : List (Place × UpdateOp)} {u₁ u₂ u : World}
    (hleft : left.Yields call limit env w lhs first u₁)
    (hright : right.Yields call limit env u₁ rhs second u₂)
    (hop : op.apply u₂.heap lhs rhs = some (.ok result))
    (hall : Performs (first ++ second) u₂ (.done () u)) :
    BinaryEnds op left right w (.done result u)
  | stopped {lhs rhs result : Value} {first second : List (Place × UpdateOp)} {u₁ u₂ u : World}
    {e : EvalError} (hleft : left.Yields call limit env w lhs first u₁)
    (hright : right.Yields call limit env u₁ rhs second u₂)
    (hop : op.apply u₂.heap lhs rhs = some (.ok result))
    (hall : Performs (first ++ second) u₂ (.failed e u)) : BinaryEnds op left right w (.failed e u)

end Operators

/-! ## Operands -/

namespace Place

variable {p : Place} {w w' : World}

/-- A read that ends has yielded what the place reads as, and has changed nothing. -/
theorem read_eq_done_iff {v : Value} :
    p.read w = .done v w' ↔ p.content w.heap = .ok v ∧ w = w' := by
  rw [read_eq]
  cases p.content w.heap <;> simp

theorem read_eq_failed_iff {e : EvalError} :
    p.read w = .failed e w' ↔ p.content w.heap = .error e ∧ w = w' := by
  rw [read_eq]
  cases p.content w.heap <;> simp

/-- Reading the number at a place changes nothing: read again, it is the same. -/
theorem readNumber_twice {α : Type} (p : Place) (f : Float → Float → Action α) :
    (do let m ← p.readNumber
        let n ← p.readNumber
        f m n) = (do
        let m ← p.readNumber
        f m m) := by
  funext w
  rw [Action.bind_run, Action.bind_run]
  cases hread : p.readNumber w with
  | done m u =>
    obtain ⟨old, _, hold, hnumber⟩ := Action.bind_eq_done_iff.1 hread
    obtain ⟨-, rfl⟩ := read_eq_done_iff.1 hold
    obtain ⟨-, rfl⟩ := Action.query_eq_done_iff.1 hnumber
    exact Action.bind_of_done hread
  | failed e u => rfl
  | exhausted => rfl

end Place

namespace Operand

open HostScript.Action

variable {call : Caller} {limit : Nat} {env : Env} {operand : Operand} {w w' : World}

/-- An operand that has a value has come to it by the rule for its form. -/
theorem eval_eq_done_iff {v : Value} {waits : List (Place × UpdateOp)} :
    operand.eval call limit env w = .done (v, waits) w' ↔
      operand.Yields call limit env w v waits w' := by
  cases operand with
  | plain expr =>
    simp only [eval, bind_eq_done_iff, pure_eq_done_iff]
    constructor
    · rintro ⟨v, u, hexpr, ⟨⟩, rfl⟩
      exact .plain hexpr
    · rintro ⟨hexpr⟩
      exact ⟨_, _, hexpr, rfl, rfl⟩
  | deferred op target =>
    -- The place, the value read from it and its number, in the order in which they are found.
    simp only [eval, Place.readNumber, bind_eq_done_iff, pure_eq_done_iff, query_eq_done_iff,
      Place.read_eq_done_iff]
    constructor
    · rintro ⟨place, u, hplace, n, u', ⟨old, _, ⟨hread, rfl⟩, hnumber, rfl⟩, ⟨⟩, rfl⟩
      exact .deferred hplace hread hnumber
    · rintro (_ | ⟨hplace, hread, hnumber⟩)
      exact ⟨_, _, hplace, _, _, ⟨_, _, ⟨hread, rfl⟩, hnumber, rfl⟩, rfl, rfl⟩

/-- An operand that fails does so where its expression fails or, if its update waits, where the
place is sought or read. -/
theorem eval_eq_failed_iff {e : EvalError} :
    operand.eval call limit env w = .failed e w' ↔ operand.Fails call limit env w e w' := by
  cases operand with
  | plain expr =>
    simp only [eval, bind_eq_failed_iff, pure_run, reduceCtorEq, and_false, exists_false, or_false]
    constructor
    · exact .plain
    · rintro ⟨hexpr⟩
      exact hexpr
  | deferred op target =>
    simp only [eval, Place.readNumber, bind_eq_failed_iff, pure_run, reduceCtorEq, and_false,
      -- What has been read converts to a number or never does, so the conversion is no failure.
      exists_false, or_false, query_ne_failed, Place.read_eq_failed_iff]
    constructor
    · rintro (htarget | ⟨place, u, hplace, hread, rfl⟩)
      · exact .target htarget
      · exact .reading hplace hread
    · rintro (_ | htarget | ⟨hplace, hread⟩)
      · exact .inl htarget
      · exact .inr ⟨_, _, hplace, hread, rfl⟩

end Operand

/-! ## Waiting updates -/

section Waiting

open HostScript.Action

variable {place : Place} {op : UpdateOp} {waits : List (Place × UpdateOp)} {w w' : World}
  {e : EvalError}

/-- An update has added its amount to the number that the place held, and yields both numbers. -/
theorem Place.update_eq_done_iff {numbers : Float × Float} :
    place.update op w = .done numbers w' ↔
      ∃ old n, place.content w.heap = .ok old ∧ old.toNumber w.heap = some n ∧
        place.write (.number (n + op.delta)) w = .done () w' ∧ (n, n + op.delta) = numbers := by
  simp only [update, readNumber, bind_eq_done_iff, pure_eq_done_iff, query_eq_done_iff,
    read_eq_done_iff]
  constructor
  · rintro ⟨n, _, ⟨old, _, ⟨hread, rfl⟩, hnumber, rfl⟩, _, u, hwrite, hnumbers, rfl⟩
    exact ⟨old, n, hread, hnumber, hwrite, hnumbers⟩
  · rintro ⟨old, n, hread, hnumber, hwrite, hnumbers⟩
    exact ⟨n, w, ⟨old, w, ⟨hread, rfl⟩, hnumber, rfl⟩, (), w', hwrite, hnumbers, rfl⟩

/-- An update fails where its place has nothing to be read or refuses what is written. -/
theorem Place.update_eq_failed_iff :
    place.update op w = .failed e w' ↔
      place.content w.heap = .error e ∧ w = w' ∨
        ∃ old n, place.content w.heap = .ok old ∧ old.toNumber w.heap = some n ∧
          place.write (.number (n + op.delta)) w = .failed e w' := by
  simp only [update, readNumber, bind_eq_failed_iff, bind_eq_done_iff, pure_run, reduceCtorEq,
    and_false, exists_false, or_false, query_eq_done_iff, query_ne_failed, read_eq_done_iff,
    read_eq_failed_iff]
  constructor
  · rintro (hread | ⟨n, _, ⟨old, _, ⟨hread, rfl⟩, hnumber, rfl⟩, hwrite⟩)
    · exact .inl hread
    · exact .inr ⟨old, n, hread, hnumber, hwrite⟩
  · rintro (hread | ⟨old, n, hread, hnumber, hwrite⟩)
    · exact .inl hread
    · exact .inr ⟨n, w, ⟨old, w, ⟨hread, rfl⟩, hnumber, rfl⟩, hwrite⟩

/-- Waiting updates that have all been performed have been so one after another. By induction on
those that wait, each in the world that the one before it has left. -/
theorem performAll_eq_done_iff {a : Unit} :
    performAll waits w = .done a w' ↔ Performs waits w (.done a w') := by
  induction waits generalizing w with
  | nil =>
    rw [performAll, pure_eq_done_iff]
    constructor
    · rintro ⟨-, rfl⟩
      exact .nil
    · rintro ⟨⟩
      exact ⟨rfl, rfl⟩
  | cons wait waits ih =>
    simp only [performAll, bind_eq_done_iff, Place.update_eq_done_iff, ih]
    constructor
    · rintro ⟨_, u, ⟨old, n, hread, hnumber, hwrite, -⟩, hrest⟩
      exact .added hread hnumber hwrite hrest
    · rintro (_ | ⟨hread, hnumber, hwrite, hrest⟩)
      exact ⟨_, _, ⟨_, _, hread, hnumber, hwrite, rfl⟩, hrest⟩

/-- Waiting updates that fail have been performed up to the first that failed. -/
theorem performAll_eq_failed_iff :
    performAll waits w = .failed e w' ↔ Performs waits w (.failed e w') := by
  induction waits generalizing w with
  | nil =>
    constructor
    · rintro ⟨⟩
    · rintro ⟨⟩
  | cons wait waits ih =>
    simp only [performAll, bind_eq_failed_iff, Place.update_eq_done_iff,
      Place.update_eq_failed_iff, ih]
    constructor
    -- The first update cannot be read, is refused, or has been performed and a later one fails.
    · rintro ((⟨hread, rfl⟩ | ⟨old, n, hread, hnumber, hwrite⟩) |
        ⟨_, u, ⟨old, n, hread, hnumber, hwrite, -⟩, hrest⟩)
      · exact .unreadable hread
      · exact .refused hread hnumber hwrite
      · exact .added hread hnumber hwrite hrest
    · rintro (_ | ⟨hread, hnumber, hwrite, hrest⟩ | hread | ⟨hread, hnumber, hwrite⟩)
      · exact .inr ⟨_, _, ⟨_, _, hread, hnumber, hwrite, rfl⟩, hrest⟩
      · exact .inl (.inl ⟨hread, rfl⟩)
      · exact .inl (.inr ⟨_, _, hread, hnumber, hwrite⟩)

end Waiting

/-- An update need not wait for an answer that there is for every number: nothing happens between
its read and its write then, and the answer depends on no world. -/
theorem Operand.eval_ofExpr {α : Type} (call : Caller) (limit : Nat) (env : Env) (expr : Expr)
    (answer : Value → Action α) (hnumber : ∀ n, ∃ a, answer (.number n) = pure a) :
    (do let operand ← (ofExpr expr).eval call limit env
        let a ← answer operand.1
        performAll operand.2
        return a) = (do
        let value ← expr.eval call limit env
        answer value) := by
  unfold ofExpr
  split
  · choose result hresult using hnumber
    simp only [Operand.eval, Expr.eval, performAll, Place.update, bind_assoc, pure_bind, hresult,
      Place.readNumber_twice, Bool.false_eq_true, if_false]
  · simp only [Operand.eval, performAll, bind_assoc, pure_bind, bind_pure]

namespace Place

/-- A place reads as something that converts to the number. -/
def Holds (p : Place) (h : Heap) (n : Float) : Prop :=
  ∃ v, p.content h = .ok v ∧ v.toNumber h = some n

end Place

/-- The `length` of an array could lose the sign of minus zero. An update never writes it. -/
theorem Number.add_delta_ne_minusZero (n : Float) (op : UpdateOp) :
    n + op.delta ≠ Number.zero true := by
  refine add_ne_minusZero n fun hdelta => ?_
  have hbits := Float.toBits_inj.2 hdelta
  cases op <;> exact absurd hbits (by decide)

/-- What an update has written is what the place reads as, whichever it is. -/
theorem Place.Keeps.eq_of_update {p : Place} {h : Heap} {n : Float} {op : UpdateOp} {kept : Value}
    (hkeeps : p.Keeps h (.number (n + op.delta)) kept) : kept = .number (n + op.delta) := by
  cases hkeeps with
  | binding | property => rfl
  | length hm => exact congrArg Value.number (Option.some.inj hm).symm
  | minusZero hm => exact absurd (Option.some.inj hm) (Number.add_delta_ne_minusZero n op)

/-- Updates that wait for one place add up: none of them is lost. -/
theorem Performs.holds_foldl {p : Place} {ops : List UpdateOp} {w w' : World} {n : Float}
    (hp : p.IsThere w.heap) (hn : p.Holds w.heap n)
    (hall : Performs (ops.map fun op => (p, op)) w (.done () w')) :
    p.Holds w'.heap (ops.foldl (fun m op => m + op.delta) n) := by
  induction ops generalizing w n with
  | nil =>
    cases hall
    exact hn
  | cons op ops ih =>
    cases hall with
    | @added _ _ _ _ u _ old m hread hnumber hwrite hrest =>
      obtain ⟨v, hv, hvn⟩ := hn
      obtain rfl : old = v := Except.ok.inj (hread.symm.trans hv)
      obtain rfl : m = n := Option.some.inj (hnumber.symm.trans hvn)
      -- The number that this update leaves is the one that the next update reads.
      obtain ⟨hthere, ⟨kept, hkeeps, hkept⟩, -⟩ := Place.written_of_write hp hwrite
      obtain rfl := hkeeps.eq_of_update
      exact ih hthere ⟨_, hkept, rfl⟩ hrest

/-! ## Operators -/

namespace Expr

open HostScript.Action

variable {call : Caller} {limit : Nat} {env : Env} {op : BinaryOp} {left right : Operand}
  {w w' : World}

/-- An operator that has a value has come to it by the one rule with a value: both operands have
theirs, and all that waited has been performed. -/
theorem eval_binary_eq_done_iff {v : Value} :
    (binary op left right).eval call limit env w = .done v w' ↔
      BinaryEnds call limit env op left right w (.done v w') := by
  simp only [eval, bind_eq_done_iff, pure_eq_done_iff, queryExcept_eq_done_iff, Prod.exists,
    Operand.eval_eq_done_iff, performAll_eq_done_iff]
  constructor
  · rintro ⟨lhs, first, u₁, hleft, rhs, second, u₂, hright, result, _, ⟨hop, rfl⟩, _, u, hall, rfl,
      rfl⟩
    exact .performed hleft hright hop hall
  · rintro (_ | _ | _ | ⟨hleft, hright, hop, hall⟩ | _)
    exact ⟨_, _, _, hleft, _, _, _, hright, _, _, ⟨hop, rfl⟩, (), _, hall, rfl, rfl⟩

/-- An operator that fails does so by one of the four rules with a failure, each for a part of it:
an operand, the operator on its values, or the updates behind it. -/
theorem eval_binary_eq_failed_iff {e : EvalError} :
    (binary op left right).eval call limit env w = .failed e w' ↔
      BinaryEnds call limit env op left right w (.failed e w') := by
  simp only [eval, bind_eq_failed_iff, pure_run, reduceCtorEq, and_false, exists_false, or_false,
    queryExcept_eq_done_iff, queryExcept_eq_failed_iff, Prod.exists, Operand.eval_eq_done_iff,
    Operand.eval_eq_failed_iff, performAll_eq_failed_iff]
  constructor
  · rintro (hleft | ⟨lhs, first, u₁, hleft, hright | ⟨rhs, second, u₂, hright, ⟨hop, rfl⟩ |
      ⟨result, _, ⟨hop, rfl⟩, hall⟩⟩⟩)
    · exact .left hleft
    · exact .right hleft hright
    · exact .operator hleft hright hop
    · exact .stopped hleft hright hop hall
  · rintro (hleft | ⟨hleft, hright⟩ | ⟨hleft, hright, hop⟩ | _ | ⟨hleft, hright, hop, hall⟩)
    · exact .inl hleft
    · exact .inr ⟨_, _, _, hleft, .inl hright⟩
    · exact .inr ⟨_, _, _, hleft, .inr ⟨_, _, _, hright, .inl ⟨hop, rfl⟩⟩⟩
    · exact .inr ⟨_, _, _, hleft, .inr ⟨_, _, _, hright, .inr ⟨_, _, ⟨hop, rfl⟩, hall⟩⟩⟩

end Expr

/-- Once both operands have their values, the updates that wait for one place have been added to
what it held by then if the operator ends with a value. -/
theorem Expr.holds_foldl_of_eval_binary {call : Caller} {limit : Nat} {env : Env} {op : BinaryOp}
    {left right : Operand} {w u₁ u₂ u : World} {lhs rhs v : Value}
    {first second : List (Place × UpdateOp)} {p : Place} {ops : List UpdateOp} {n : Float}
    (hleft : left.Yields call limit env w lhs first u₁)
    (hright : right.Yields call limit env u₁ rhs second u₂)
    (hall : first ++ second = ops.map fun op => (p, op)) (hp : p.IsThere u₂.heap)
    (hn : p.Holds u₂.heap n) (heval : (binary op left right).eval call limit env w = .done v u) :
    p.Holds u.heap (ops.foldl (fun m op => m + op.delta) n) := by
  cases eval_binary_eq_done_iff.1 heval with
  | performed hleft' hright' hop hall' =>
    -- Operands have one outcome only.
    rw [← Operand.eval_eq_done_iff] at hleft hleft' hright hright'
    obtain ⟨⟨rfl, rfl⟩, rfl⟩ : (_ ∧ _) ∧ _ := by simpa using hleft.symm.trans hleft'
    obtain ⟨⟨rfl, rfl⟩, rfl⟩ : (_ ∧ _) ∧ _ := by simpa using hright.symm.trans hright'
    rw [hall] at hall'
    exact hall'.holds_foldl hp hn

/-- Postfix updates directly beneath an operator are all or nothing. If an operand or the operator
fails, that is the end and none of them has been written. Otherwise the operator yields its result
on the old numbers, and then the updates are performed in the order of the source, each at most once
and up to the first that fails. Each adds to the number that its place holds at that moment, where
the place is the one that its target named when the operand was evaluated. So of several updates of
one place, and of what the other operand has written there, nothing is lost. -/
theorem deferred_updates_all_or_nothing (span : Option Span) {symbol : String} {op : BinaryOp}
    (hop : BinaryOp.ofSymbol? symbol = some op) {l r : Node} {left right : Expr}
    (hl : l.toExpr = .ok left) (hr : r.toExpr = .ok right) :
    ∃ code, (Node.mk span (.binaryExpression symbol l r)).toExpr = .ok code ∧
      ∀ (call : Caller) (limit : Nat) (env : Env) (w : World),
        (∀ o, o ≠ .exhausted → (code.eval call limit env w = o ↔
          BinaryEnds call limit env op (.ofExpr left) (.ofExpr right) w o)) ∧
        ∀ (lhs rhs v : Value) (first second : List (Place × UpdateOp)) (u₁ u₂ u : World)
          (p : Place) (ops : List UpdateOp) (n : Float),
          (Operand.ofExpr left).Yields call limit env w lhs first u₁ →
          (Operand.ofExpr right).Yields call limit env u₁ rhs second u₂ →
          (first ++ second = ops.map fun op => (p, op)) →
          p.IsThere u₂.heap → p.Holds u₂.heap n →
          code.eval call limit env w = .done v u →
          p.Holds u.heap (ops.foldl (fun m op => m + op.delta) n) := by
  refine ⟨.binary op (.ofExpr left) (.ofExpr right), ?_, fun call limit env w => ⟨?_, ?_⟩⟩
  · rw [Node.toExpr, Node.operator, hop, hl, hr]
    rfl
  -- The rules are for ends. Whether the operator ends at all is left open.
  · intro o ho
    cases o with
    | done v u => exact Expr.eval_binary_eq_done_iff
    | failed e u => exact Expr.eval_binary_eq_failed_iff
    | exhausted => exact absurd rfl ho
  · intro lhs rhs v first second u₁ u₂ u p ops n hleft hright hall hp hn heval
    exact Expr.holds_foldl_of_eval_binary hleft hright hall hp hn heval

/-- A root frame that binds `x` to a number. -/
def oneNumber : World where
  heap := { cells := #[.frame { bindings := .ofList [("x", .number 5)], host := some ∅ }] }

/-- The update `x++`. -/
def incremented : Node :=
  .bare (.updateExpression "++" false (.bare (.identifier "x")))

theorem incremented_yields (call : Caller) :
    (Operand.ofExpr (.update .increment false (.name "x"))).Yields call 0 ⟨0, 0⟩ oneNumber
      (.number 5) [(.binding ⟨0, 0⟩ "x", .increment)] oneNumber :=
  .deferred (by rw [Target.place]; rfl) rfl rfl

/-- In `x++ + x++` both updates wait, for one place. -/
theorem incremented_twice_adds_two :
    ∃ code u, (Node.bare (.binaryExpression "+" incremented incremented)).toExpr = .ok code ∧
      code.eval (fun _ _ _ => Action.exhaust) 0 ⟨0, 0⟩ oneNumber = .done (.number (5 + 5)) u ∧
      (Place.binding ⟨0, 0⟩ "x").Holds u.heap (5 + 1 + 1) := by
  have hincremented : incremented.toExpr = .ok (.update .increment false (.name "x")) := by
    rw [incremented, Node.bare, Node.toExpr]
    rfl
  obtain ⟨code, hcode, hends⟩ :=
    deferred_updates_all_or_nothing none (rfl : BinaryOp.ofSymbol? "+" = some .add) hincremented
      hincremented
  obtain ⟨heval, hholds⟩ := hends (fun _ _ _ => Action.exhaust) 0 ⟨0, 0⟩ oneNumber
  have hended := (heval (.done (.number (5 + 5)) _) nofun).2
    (.performed (incremented_yields _) (incremented_yields _) rfl
      (.added rfl rfl rfl (.added rfl rfl rfl .nil)))
  exact ⟨code, _, hcode, hended, hholds _ _ _ _ _ _ _ _ _ [.increment, .increment] 5
    (incremented_yields _) (incremented_yields _) rfl ⟨_, rfl⟩ ⟨_, rfl, rfl⟩ hended⟩

/-- Two objects with a number each, bound to `o` and `p`. -/
def twoObjects : World where
  heap := { cells := #[
    .frame { bindings := .ofList [("o", .object 1), ("p", .object 2)], host := some ∅ },
    .object (.ofList [("n", .number 1)]),
    .object (.ofList [("n", .number 10)])] }

/-- The same world once `o` has been assigned the other object. -/
def rebound : World where
  heap := Env.define ⟨0, 0⟩ twoObjects.heap "o" (.object 2)
  definitions := [⟨.assignment, ⟨0, 0⟩, "o", .object 2⟩]

/-- The target `o.n`. -/
def member : Target := .property (.ident "o") (.literal (.string "n"))

/-- The target of an update on the right is not found before the left operand runs. In
`(o = p) + o.n++` it would be a property of the first object then, but what is added to is one of
the second. -/
theorem right_target_found_after_left :
    ∃ v u, member.place (fun _ _ _ => Action.exhaust) 0 ⟨0, 0⟩ twoObjects =
        .done (.property (.object 1) "n") twoObjects ∧
      (Expr.binary .add (.plain (.assign .assign (.name "o") (.ident "p")))
          (.deferred .increment member)).eval (fun _ _ _ => Action.exhaust) 0 ⟨0, 0⟩ twoObjects =
        .done v u ∧
      ¬ (Place.property (.object 1) "n").Holds u.heap (1 + 1) ∧
      (Place.property (.object 2) "n").Holds u.heap (10 + 1) := by
  have hplace : member.place (fun _ _ _ => Action.exhaust) 0 ⟨0, 0⟩ twoObjects =
      .done (.property (.object 1) "n") twoObjects := by
    simp only [member, Target.place, Expr.eval]
    rfl
  have hplace' : member.place (fun _ _ _ => Action.exhaust) 0 ⟨0, 0⟩ rebound =
      .done (.property (.object 2) "n") rebound := by
    simp only [member, Target.place, Expr.eval]
    rfl
  have hassign : (Expr.assign .assign (.name "o") (.ident "p")).eval (fun _ _ _ => Action.exhaust) 0
      ⟨0, 0⟩ twoObjects = .done (.object 2) rebound := by
    simp only [Expr.eval, Target.place]
    rfl
  have hends : BinaryEnds (fun _ _ _ => Action.exhaust) 0 ⟨0, 0⟩ .add
      (.plain (.assign .assign (.name "o") (.ident "p"))) (.deferred .increment member) twoObjects
      (.done _ _) :=
    .performed (.plain hassign) (.deferred hplace' rfl rfl) rfl (.added rfl rfl rfl .nil)
  refine ⟨_, _, hplace, Expr.eval_binary_eq_done_iff.2 hends, ?_, ⟨_, rfl, rfl⟩⟩
  -- The first object still has the number that it had.
  rintro ⟨v, hv, hn⟩
  obtain rfl : .number 1 = v := Except.ok.inj hv
  have hone : (1 : Float) = 1 + 1 := Option.some.inj hn
  exact absurd (Float.toBits_inj.2 hone) (by decide)

end HostScript
