import HostScript.Proofs.Run.Outcome
import HostScript.Proofs.Syntax.Grammar
import HostScript.Tree.Build

/-!
# Blocks as the statements in them

A block opens no frame: its statements run one after another in the frame of the block, as they
would without it. All that can tell the two apart is the value. It is that of the last statement,
and a block is a statement even with nothing in it.

* `runAll_append`: a list in two parts.
* `runAll_block`: a block at the beginning of a list may as well be its statements.
* `runAll_dissolve`, `runAlike_dissolve`: a block anywhere in a list, as code and as a tree.
* `stmtsLeaves`: the statements of a list without any blocks around them, however many there were.
  `runAll_leaves`: they are all that runs.
* `blocks_are_transparent`: the whole.
-/

namespace HostScript

/-- After a normal completion something else runs; any other one is final. -/
def Completion.andThen (next : Value → Action Completion) : Completion → Action Completion
  | normal value => next value
  | abrupt => return abrupt

section Lists

variable {call : Caller} {limit : Nat} {env : Env}

/-! ## Lists in two parts -/

theorem runAll_cons (stmt : Stmt) (rest : List Stmt) (last : Value) :
    runAll call limit (stmt :: rest) env last = (do
      let completion ← stmt.run call limit env
      completion.andThen fun value => runAll call limit rest env value) := by
  rw [runAll]
  refine bind_congr fun completion => ?_
  cases completion <;> rfl

/-- The second part runs after the first one if that completes normally, and its value is the one to
begin with. -/
theorem runAll_append (xs ys : List Stmt) (last : Value) :
    runAll call limit (xs ++ ys) env last = (do
      let completion ← runAll call limit xs env last
      completion.andThen fun value => runAll call limit ys env value) := by
  induction xs generalizing last with
  | nil =>
    rw [List.nil_append, runAll, pure_bind]
    rfl
  | cons stmt rest ih =>
    rw [List.cons_append, runAll_cons, runAll_cons, bind_assoc]
    refine bind_congr fun completion => ?_
    cases completion with
    | normal value => exact ih value
    | ret | brk | cont => rfl

/-- What came before the first statement counts for nothing. -/
theorem runAll_last {body : List Stmt} (hbody : body ≠ []) (last last' : Value) :
    runAll call limit body env last = runAll call limit body env last' := by
  cases body with
  | nil => exact absurd rfl hbody
  | cons stmt rest => rw [runAll, runAll]

/-- Lists that differ in their second parts alone run alike if these do, whatever the value before
them. -/
theorem runAll_append_congr {xs ys ys' : List Stmt} {last : Value}
    (h : ∀ value, runAll call limit ys env value = runAll call limit ys' env value) :
    runAll call limit (xs ++ ys) env last = runAll call limit (xs ++ ys') env last := by
  rw [runAll_append, runAll_append, funext h]

/-! ## One block -/

/-- A block begins without a value, whatever came before. -/
theorem runAll_block (ys zs : List Stmt) (last : Value) :
    runAll call limit (.block ys :: zs) env last =
      runAll call limit (ys ++ zs) env .undefined := by
  rw [runAll_cons, Stmt.run, runAll_append]

theorem runAll_dissolve (xs : List Stmt) {ys zs : List Stmt} (h : ys ≠ [] ∨ zs ≠ [])
    (last : Value) :
    runAll call limit (xs ++ .block ys :: zs) env last =
      runAll call limit (xs ++ ys ++ zs) env last := by
  have hne : ys ++ zs ≠ [] := fun hnil => by
    obtain ⟨hys, hzs⟩ := List.append_eq_nil_iff.1 hnil
    exact h.elim (absurd hys) (absurd hzs)
  rw [List.append_assoc]
  refine runAll_append_congr fun value => ?_
  -- The block takes the value of `xs` away, and some statement of `ys` or `zs` would as well.
  rw [runAll_block, runAll_last hne]

/-- A block with nothing in it yields undefined, whatever the value before it was. -/
theorem runAll_block_nil (last : Value) :
    runAll call limit [.block []] env last = return .normal .undefined := by
  rw [runAll_block, List.append_nil, runAll]

theorem runAll_empty (last : Value) :
    runAll call limit [.empty] env last = return .normal .undefined := by
  rw [runAll_cons, Stmt.run, pure_bind, Completion.andThen, runAll]

end Lists

/-! ## Blocks in blocks -/

mutual

/-- What there is to run in a statement when no block is left: of a block the statements in it, and
in the blocks there, and of any other the statement itself. -/
def Stmt.leaves : Stmt → List Stmt
  | .block body => stmtsLeaves body
  | stmt => [stmt]

def stmtsLeaves : List Stmt → List Stmt
  | [] => []
  | stmt :: rest => stmt.leaves ++ stmtsLeaves rest

end

mutual

/-- Whether a statement is a block that has no last statement. -/
def Stmt.lacksLast : Stmt → Bool
  | .block body => stmtsLackLast body
  | _ => false

/-- Whether a list has no last statement, where a block that has none does not count as one. -/
def stmtsLackLast : List Stmt → Bool
  | [] => true
  | [stmt] => stmt.lacksLast
  | _ :: stmt :: rest => stmtsLackLast (stmt :: rest)

end

mutual

/-- A statement without leaves is made of blocks alone, and so has an empty block at its end. -/
theorem Stmt.lacksLast_of_leaves : ∀ {stmt : Stmt}, stmt.leaves = [] → stmt.lacksLast = true
  | .block body, h => by
    rw [Stmt.leaves] at h
    rw [Stmt.lacksLast]
    exact stmtsLackLast_of_leaves h

theorem stmtsLackLast_of_leaves : ∀ {body : List Stmt}, stmtsLeaves body = [] →
    stmtsLackLast body = true
  | [], _ => rfl
  | [stmt], h => by
    rw [stmtsLeaves, stmtsLeaves, List.append_nil] at h
    rw [stmtsLackLast]
    exact Stmt.lacksLast_of_leaves h
  | stmt :: next :: rest, h => by
    rw [stmtsLeaves, List.append_eq_nil_iff] at h
    obtain ⟨-, hrest⟩ := h
    rw [stmtsLackLast]
    exact stmtsLackLast_of_leaves hrest

end

/-- What stands for a missing last statement: one that does nothing and yields undefined. -/
def emptyLast (lacks : Bool) : List Stmt :=
  if lacks then [.empty] else []

/-- With an empty statement for an empty block at the end, something always runs. -/
theorem leaves_append_emptyLast_ne_nil (body : List Stmt) :
    stmtsLeaves body ++ emptyLast (stmtsLackLast body) ≠ [] := by
  intro h
  obtain ⟨hleaves, hempty⟩ := List.append_eq_nil_iff.1 h
  rw [stmtsLackLast_of_leaves hleaves] at hempty
  cases hempty

section Leaves

variable {call : Caller} {limit : Nat} {env : Env}

mutual

/-- Where statements follow, a block may be dissolved with all blocks in it. The induction is on the
code; what follows a block within a block is the rest of the outer one as well. -/
theorem Stmt.runAll_cons_leaves : ∀ (stmt : Stmt) {rest : List Stmt}, rest ≠ [] →
    ∀ last : Value, runAll call limit (stmt :: rest) env last =
      runAll call limit (stmt.leaves ++ rest) env last
  | .block body, rest, hrest, last => by
    have hne : body ++ rest ≠ [] := List.append_ne_nil_of_right_ne_nil body hrest
    rw [runAll_block, Stmt.leaves, runAll_last hne .undefined last]
    exact runAll_append_leaves body hrest last
  | .expr _, _, _, _ | .empty, _, _, _ | .ret _, _, _, _ | .brk, _, _, _ | .cont, _, _, _
  | .ifElse .., _, _, _ | .switch .., _, _, _ | .whileLoop .., _, _, _ | .forLoop .., _, _, _
  | .forIn .., _, _, _ | .declare _, _, _, _ | .function _, _, _, _ => rfl

theorem runAll_append_leaves : ∀ (body : List Stmt) {rest : List Stmt}, rest ≠ [] →
    ∀ last : Value, runAll call limit (body ++ rest) env last =
      runAll call limit (stmtsLeaves body ++ rest) env last
  | [], _, _, _ => rfl
  | stmt :: body, rest, hrest, last => by
    have hne : body ++ rest ≠ [] := List.append_ne_nil_of_right_ne_nil body hrest
    rw [List.cons_append, stmt.runAll_cons_leaves hne, stmtsLeaves, List.append_assoc]
    exact runAll_append_congr fun value => runAll_append_leaves body hrest value

end

mutual

theorem Stmt.runAll_leaves : ∀ stmt : Stmt, runAll call limit [stmt] env .undefined =
    runAll call limit (stmt.leaves ++ emptyLast stmt.lacksLast) env .undefined
  | .block body => by
    rw [runAll_block, List.append_nil, Stmt.leaves, Stmt.lacksLast]
    exact runAll_leaves body
  | .expr _ | .empty | .ret _ | .brk | .cont | .ifElse .. | .switch .. | .whileLoop ..
  | .forLoop .. | .forIn .. | .declare _ | .function _ => rfl

/-- A list is its leaves, and what stands for its last statement if it has none. -/
theorem runAll_leaves : ∀ body : List Stmt, runAll call limit body env .undefined =
    runAll call limit (stmtsLeaves body ++ emptyLast (stmtsLackLast body)) env .undefined
  | [] => by
    rw [stmtsLackLast, emptyLast, if_pos rfl, stmtsLeaves, List.nil_append, runAll_empty, runAll]
  | [stmt] => by
    rw [stmtsLeaves, stmtsLeaves, List.append_nil, stmtsLackLast]
    exact stmt.runAll_leaves
  | stmt :: next :: rest => by
    rw [stmt.runAll_cons_leaves (List.cons_ne_nil next rest), stmtsLeaves, stmtsLackLast,
      List.append_assoc]
    refine runAll_append_congr fun value => ?_
    -- Neither of the two is empty, so both run as from `undefined`.
    rw [runAll_last (List.cons_ne_nil next rest) value .undefined, runAll_leaves (next :: rest),
      runAll_last (leaves_append_emptyLast_ne_nil (next :: rest)) .undefined value]

end

end Leaves

/-! ## Blocks in trees -/

/-- Checking goes through a list from its beginning, and so through two parts one after another. -/
theorem toStmts_append (xs ys : List Node) : toStmts (xs ++ ys) = (do
    let stmts ← toStmts xs
    let others ← toStmts ys
    return stmts ++ others) := by
  induction xs with
  | nil =>
    rw [List.nil_append, toStmts]
    cases toStmts ys <;> rfl
  | cons node rest ih => simp [toStmts, ih]

/-- Checking drops no statement, so a list that is not empty compiles to one that is not. -/
theorem ne_nil_of_toStmts {nodes : List Node} {stmts : List Stmt} (h : toStmts nodes = .ok stmts)
    (hnodes : nodes ≠ []) : stmts ≠ [] := by
  cases nodes with
  | nil => exact absurd rfl hnodes
  | cons node rest =>
    simp only [toStmts, Checked.bind_eq_ok_iff] at h
    obtain ⟨stmt, -, others, -, hstmts⟩ := h
    cases hstmts
    exact List.cons_ne_nil stmt others

/-- Two lists of statements are refused for the same fault, or become code that does the same in
every environment: it ends alike and leaves the same world. -/
def RunAlike (nodes nodes' : List Node) : Prop :=
  (∃ fault, toStmts nodes = .error fault ∧ toStmts nodes' = .error fault) ∨
    ∃ code code', toStmts nodes = .ok code ∧ toStmts nodes' = .ok code' ∧
      ∀ call limit env, runAll call limit code env .undefined =
        runAll call limit code' env .undefined

theorem runAlike_dissolve (span : Option Span) (xs : List Node) {ys zs : List Node}
    (h : ys ≠ [] ∨ zs ≠ []) :
    RunAlike (xs ++ .mk span (.blockStatement ys) :: zs) (xs ++ ys ++ zs) := by
  unfold RunAlike
  simp only [toStmts_append, toStmts, Node.toStmt, bind_assoc, pure_bind]
  -- Both lists are checked in the order of the source, so the first fault is the same.
  cases toStmts xs with
  | error fault => exact .inl ⟨fault, rfl, rfl⟩
  | ok before =>
    cases hys : toStmts ys with
    | error fault => exact .inl ⟨fault, rfl, rfl⟩
    | ok body =>
      cases hzs : toStmts zs with
      | error fault => exact .inl ⟨fault, rfl, rfl⟩
      | ok after =>
        have hne : body ≠ [] ∨ after ≠ [] :=
          h.imp (ne_nil_of_toStmts hys) (ne_nil_of_toStmts hzs)
        exact .inr ⟨_, _, rfl, rfl, fun call limit env => runAll_dissolve before hne .undefined⟩

/-! ## Transparency -/

/-- Blocks are transparent, whatever the statements are and in every environment. Lists that are the
same action end alike, with the same host calls and in the same world.

* Statements `xs` followed by `ys` are `xs` and then, only if they complete normally, `ys` in the
  same frame. The value is that of `ys`, and that of `xs` if there is nothing in `ys`.
* A block of `ys` between `xs` and `zs` is `ys` itself, unless both `ys` and `zs` are empty.
* If both are, `xs` run as they do alone, but the value is undefined.
* A list with blocks in blocks is the list of its leaves if a statement stands last in it, in
  however many blocks.
* If none does, its leaves run as they do alone, but the value is undefined.
* As trees, a list with such a block in it and the one with the statements of the block in its place
  are refused for the same fault, or they become code that does the same. -/
theorem blocks_are_transparent (call : Caller) (limit : Nat) (env : Env) :
    (∀ xs ys : List Stmt, runAll call limit (xs ++ ys) env .undefined = (do
      let completion ← runAll call limit xs env .undefined
      completion.andThen fun value =>
        if ys = [] then return .normal value else runAll call limit ys env .undefined)) ∧
    (∀ xs ys zs : List Stmt, ys ≠ [] ∨ zs ≠ [] →
      runAll call limit (xs ++ .block ys :: zs) env .undefined =
        runAll call limit (xs ++ ys ++ zs) env .undefined) ∧
    (∀ xs : List Stmt, runAll call limit (xs ++ [.block []]) env .undefined = (do
      let completion ← runAll call limit xs env .undefined
      completion.andThen fun _ => return .normal .undefined)) ∧
    (∀ body : List Stmt, stmtsLackLast body = false →
      runAll call limit body env .undefined =
        runAll call limit (stmtsLeaves body) env .undefined) ∧
    (∀ body : List Stmt, stmtsLackLast body = true →
      runAll call limit body env .undefined = (do
        let completion ← runAll call limit (stmtsLeaves body) env .undefined
        completion.andThen fun _ => return .normal .undefined)) ∧
    ∀ (span : Option Span) (xs ys zs : List Node), ys ≠ [] ∨ zs ≠ [] →
      RunAlike (xs ++ .mk span (.blockStatement ys) :: zs) (xs ++ ys ++ zs) := by
  refine ⟨fun xs ys => ?_, fun xs ys zs h => runAll_dissolve xs h .undefined, fun xs => ?_,
    fun body hlast => ?_, fun body hlast => ?_, fun span xs ys zs => runAlike_dissolve span xs⟩
  · rw [runAll_append]
    refine bind_congr fun completion => congrArg completion.andThen (funext fun value => ?_)
    split
    · next hys => rw [hys, runAll]
    · next hys => rw [runAll_last hys]
  · simp only [runAll_append, runAll_block_nil]
  · rw [runAll_leaves, hlast, emptyLast, if_neg Bool.false_ne_true, List.append_nil]
  · rw [runAll_leaves, hlast, emptyLast, if_pos rfl]
    simp only [runAll_append, runAll_empty]

/-- The statement `let inner = 1;`. -/
def declareInner : Stmt := .declare [("inner", some (.literal (.number 1)))]

/-- A root frame that binds nothing. -/
def bareRoot : World where
  heap := (Env.newRoot {} ∅).2

/-- The name that `{ let inner = 1; } inner;` declares is bound in the frame around the block, and
that of `{ { let inner = 1; } {} } inner;` too. In `inner; { {} }` no statement stands last, and the
value is undefined. -/
theorem block_binds_around_it :
    (∃ u, runAll (fun _ _ _ => Action.exhaust) 0
        [.block [declareInner], .expr (.ident "inner")] ⟨0, 0⟩ .undefined bareRoot =
          .done (.normal (.number 1)) u ∧
      runAll (fun _ _ _ => Action.exhaust) 0
        [.block [.block [declareInner], .block []], .expr (.ident "inner")] ⟨0, 0⟩ .undefined
          bareRoot = .done (.normal (.number 1)) u ∧
      runAll (fun _ _ _ => Action.exhaust) 0
        [.expr (.ident "inner"), .block [.block []]] ⟨0, 0⟩ .undefined u =
          .done (.normal .undefined) u ∧
      Env.resolve ⟨0, 0⟩ u.heap "inner" = some (.number 1)) ∧
    RunAlike
      [Build.block [Build.letName "inner" (Build.num 1)], Build.exprStmt (Build.ident "inner")]
      [Build.letName "inner" (Build.num 1), Build.exprStmt (Build.ident "inner")] := by
  obtain ⟨-, hblock, -, hleaves, hlacking, htrees⟩ :=
    blocks_are_transparent (fun _ _ _ => Action.exhaust) 0 ⟨0, 0⟩
  have hsome : [Stmt.expr (.ident "inner")] ≠ [] := List.cons_ne_nil _ _
  have hlast : stmtsLackLast
      [.block [.block [declareInner], .block []], .expr (.ident "inner")] = false := rfl
  have hlacks : stmtsLackLast [.expr (.ident "inner"), .block [.block []]] = true := rfl
  refine ⟨⟨{
    heap := Env.define ⟨0, 0⟩ bareRoot.heap "inner" (.number 1)
    definitions := [⟨.declaration, ⟨0, 0⟩, "inner", .number 1⟩] }, ?_, ?_, ?_, rfl⟩, ?_⟩
  · exact (congrFun (hblock [] [declareInner] _ (.inr hsome)) bareRoot).trans rfl
  · rw [hleaves _ hlast]
    rfl
  · rw [hlacking _ hlacks]
    rfl
  · exact htrees none [] [Build.letName "inner" (Build.num 1)] _ (.inr (List.cons_ne_nil _ _))

end HostScript
