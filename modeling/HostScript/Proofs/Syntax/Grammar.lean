import HostScript.Script.Basic

/-!
# The grammar of scripts

Which trees are scripts, said by rules: one relation for each position in which a node may stand,
and in it one rule for each kind of node that may stand there. Rules ask for the parts of a node
wherever they are, so nothing depends on whether code can be reached.

* `Node.IsStmt`, `Node.IsExpr` and their like: the grammar.
* `Node.toStmt_accepts_iff` and its like: checking a node in some position succeeds exactly if the
  grammar has the node there.
* `Script.compile_succeeds_iff`: a program is a script exactly if its statements are in the grammar.
-/

namespace HostScript

/-! ## The grammar -/

namespace Node

inductive IsIdentifier : Node → Prop where
  | intro {span : Option Span} {name : String} : IsIdentifier (.mk span (.identifier name))

/-- Keys of object literals that are not computed: names, strings and numbers. -/
inductive IsLiteralKey : Node → Prop where
  | identifier {span : Option Span} {name : String} : IsLiteralKey (.mk span (.identifier name))
  | string {span : Option Span} {s : String} : IsLiteralKey (.mk span (.literal (.string s)))
  | number {span : Option Span} {n : Float} : IsLiteralKey (.mk span (.literal (.number n)))

end Node

/-- The symbols of assignments: `=`, or `=` behind an operator that has an assigning form. -/
def AssignOp.IsSymbol (symbol : String) : Prop :=
  symbol = "=" ∨ ∃ op : BinaryOp, op.isAssigning = true ∧ symbol = op.symbol ++ "="

mutual

inductive Node.IsStmt : Node → Prop where
  | expression {span : Option Span} {x : Node} (hx : x.IsExpr) :
    Node.IsStmt (.mk span (.expressionStatement x))
  | block {span : Option Span} {body : List Node} (hbody : ∀ s ∈ body, s.IsStmt) :
    Node.IsStmt (.mk span (.blockStatement body))
  | empty {span : Option Span} : Node.IsStmt (.mk span .emptyStatement)
  | debugger {span : Option Span} : Node.IsStmt (.mk span .debuggerStatement)
  | ret {span : Option Span} {argument : Option Node} (hargument : ∀ x ∈ argument, x.IsExpr) :
    Node.IsStmt (.mk span (.returnStatement argument))
  /-- Without a label. -/
  | brk {span : Option Span} : Node.IsStmt (.mk span (.breakStatement none))
  | cont {span : Option Span} : Node.IsStmt (.mk span (.continueStatement none))
  | ifElse {span : Option Span} {test consequent : Node} {alternate : Option Node}
    (htest : test.IsExpr) (hconsequent : consequent.IsStmt)
    (halternate : ∀ s ∈ alternate, s.IsStmt) :
    Node.IsStmt (.mk span (.ifStatement test consequent alternate))
  /-- All statements of all clauses count, also those that never run. -/
  | switch {span : Option Span} {discriminant : Node} {cases : List (Option Node × List Node)}
    (hdiscriminant : discriminant.IsExpr) (htests : ∀ c ∈ cases, ∀ x ∈ c.1, x.IsExpr)
    (hstmts : ∀ c ∈ cases, ∀ s ∈ c.2, s.IsStmt) :
    Node.IsStmt (.mk span (.switchStatement discriminant cases))
  | whileLoop {span : Option Span} {test body : Node} (htest : test.IsExpr)
    (hbody : body.IsStmt) : Node.IsStmt (.mk span (.whileStatement test body))
  | forLoop {span : Option Span} {init test update : Option Node} {body : Node}
    (hinit : ∀ x ∈ init, x.IsForInit) (htest : ∀ x ∈ test, x.IsExpr)
    (hupdate : ∀ x ∈ update, x.IsExpr) (hbody : body.IsStmt) :
    Node.IsStmt (.mk span (.forStatement init test update body))
  | forIn {span : Option Span} {left right body : Node} (hleft : left.IsLoopTarget)
    (hright : right.IsExpr) (hbody : body.IsStmt) :
    Node.IsStmt (.mk span (.forInStatement left right body))
  | declaration {span : Option Span} {declarations : List (Node × Option Node)}
    {kind : DeclarationKind} (hids : ∀ d ∈ declarations, d.1.IsIdentifier)
    (hinits : ∀ d ∈ declarations, ∀ x ∈ d.2, x.IsExpr) :
    Node.IsStmt (.mk span (.variableDeclaration declarations kind))
  | function {span : Option Span} {f : FunctionNode} (hf : f.IsFunction false) :
    Node.IsStmt (.mk span (.functionDeclaration f))

/-- What a `for` loop may begin with: a declaration or an expression. -/
inductive Node.IsForInit : Node → Prop where
  | declaration {span : Option Span} {declarations : List (Node × Option Node)}
    {kind : DeclarationKind} (hids : ∀ d ∈ declarations, d.1.IsIdentifier)
    (hinits : ∀ d ∈ declarations, ∀ x ∈ d.2, x.IsExpr) :
    Node.IsForInit (.mk span (.variableDeclaration declarations kind))
  | expression {x : Node} (hx : x.IsExpr) : Node.IsForInit x

/-- Where a `for`-`in` loop may put its keys: one declared name without an initial value, or the
target of an assignment. -/
inductive Node.IsLoopTarget : Node → Prop where
  | declaration {span : Option Span} {id : Node} {kind : DeclarationKind}
    (hid : id.IsIdentifier) : Node.IsLoopTarget (.mk span (.variableDeclaration [(id, none)] kind))
  | target {x : Node} (hx : x.IsTarget) : Node.IsLoopTarget x

inductive Node.IsExpr : Node → Prop where
  | identifier {span : Option Span} {name : String} : Node.IsExpr (.mk span (.identifier name))
  | literal {span : Option Span} {value : LiteralValue} (hvalue : ∀ json, value ≠ .other json) :
    Node.IsExpr (.mk span (.literal value))
  | this {span : Option Span} : Node.IsExpr (.mk span .thisExpression)
  | array {span : Option Span} {elements : List (Option Node)}
    (helements : ∀ element ∈ elements, ∀ x ∈ element, x.IsExpr) :
    Node.IsExpr (.mk span (.arrayExpression elements))
  | object {span : Option Span} {properties : List Node}
    (hproperties : ∀ p ∈ properties, p.IsProperty) :
    Node.IsExpr (.mk span (.objectExpression properties))
  /-- All expressions count, also those behind the last stretch of text. -/
  | template {span : Option Span} {quasis : List TemplateElement} {expressions : List Node}
    (hexpressions : ∀ x ∈ expressions, x.IsExpr) :
    Node.IsExpr (.mk span (.templateLiteral quasis expressions))
  | conditional {span : Option Span} {test consequent alternate : Node} (htest : test.IsExpr)
    (hconsequent : consequent.IsExpr) (halternate : alternate.IsExpr) :
    Node.IsExpr (.mk span (.conditionalExpression test consequent alternate))
  | sequence {span : Option Span} {expressions : List Node}
    (hexpressions : ∀ x ∈ expressions, x.IsExpr) :
    Node.IsExpr (.mk span (.sequenceExpression expressions))
  | call {span : Option Span} {callee : Node} {arguments : List Node} (hcallee : callee.IsExpr)
    (harguments : ∀ x ∈ arguments, x.IsExpr) :
    Node.IsExpr (.mk span (.callExpression callee arguments))
  | member {span : Option Span} {object property : Node} {computed : Bool}
    (hobject : object.IsExpr) (hkey : property.IsMemberKey computed) :
    Node.IsExpr (.mk span (.memberExpression object property computed))
  | function {span : Option Span} {f : FunctionNode} (hf : f.IsFunction false) :
    Node.IsExpr (.mk span (.functionExpression f))
  | arrow {span : Option Span} {f : FunctionNode} (hf : f.IsFunction true) :
    Node.IsExpr (.mk span (.arrowFunctionExpression f))
  | unary {span : Option Span} {operator : String} {argument : Node}
    (hop : ∃ op : UnaryOp, op.symbol = operator) (hargument : argument.IsExpr) :
    Node.IsExpr (.mk span (.unaryExpression operator argument))
  | update {span : Option Span} {operator : String} {leading : Bool} {argument : Node}
    (hop : ∃ op : UpdateOp, op.symbol = operator) (hargument : argument.IsTarget) :
    Node.IsExpr (.mk span (.updateExpression operator leading argument))
  | binary {span : Option Span} {operator : String} {left right : Node}
    (hop : ∃ op : BinaryOp, op.symbol = operator) (hleft : left.IsExpr) (hright : right.IsExpr) :
    Node.IsExpr (.mk span (.binaryExpression operator left right))
  | logical {span : Option Span} {operator : String} {left right : Node}
    (hop : ∃ op : LogicalOp, op.symbol = operator) (hleft : left.IsExpr)
    (hright : right.IsExpr) : Node.IsExpr (.mk span (.logicalExpression operator left right))
  | assignment {span : Option Span} {operator : String} {left right : Node}
    (hop : AssignOp.IsSymbol operator) (hleft : left.IsTarget) (hright : right.IsExpr) :
    Node.IsExpr (.mk span (.assignmentExpression operator left right))

/-- What may be assigned to: a name or a member. -/
inductive Node.IsTarget : Node → Prop where
  | identifier {span : Option Span} {name : String} : Node.IsTarget (.mk span (.identifier name))
  | member {span : Option Span} {object property : Node} {computed : Bool}
    (hobject : object.IsExpr) (hkey : property.IsMemberKey computed) :
    Node.IsTarget (.mk span (.memberExpression object property computed))

/-- The key of a member: any expression if it is computed, else a name. -/
inductive Node.IsMemberKey : Bool → Node → Prop where
  | computed {key : Node} (hkey : key.IsExpr) : Node.IsMemberKey true key
  | plain {key : Node} (hkey : key.IsIdentifier) : Node.IsMemberKey false key

/-- The key of a property: any expression if it is computed, else a name, a string or a number. -/
inductive Node.IsPropertyKey : Bool → Node → Prop where
  | computed {key : Node} (hkey : key.IsExpr) : Node.IsPropertyKey true key
  | plain {key : Node} (hkey : key.IsLiteralKey) : Node.IsPropertyKey false key

/-- A property of an object literal, which is no accessor. -/
inductive Node.IsProperty : Node → Prop where
  | init {span : Option Span} {key value : Node} {computed : Bool}
    (hkey : key.IsPropertyKey computed) (hvalue : value.IsExpr) :
    Node.IsProperty (.mk span (.property key value computed .init))

/-- A parameter: a name, with a default or without. -/
inductive Node.IsParam : Node → Prop where
  | name {span : Option Span} {name : String} : Node.IsParam (.mk span (.identifier name))
  | withDefault {span : Option Span} {left right : Node} (hleft : left.IsIdentifier)
    (hright : right.IsExpr) : Node.IsParam (.mk span (.assignmentPattern left right))

/-- A function that neither runs in steps nor waits. Its body is a block or, of an arrow, any
expression. -/
inductive FunctionNode.IsFunction : Bool → FunctionNode → Prop where
  | block {isArrow : Bool} {name : Option String} {params : List Node} {span : Option Span}
    {body : List Node} (hparams : ∀ p ∈ params, p.IsParam) (hbody : ∀ s ∈ body, s.IsStmt) :
    FunctionNode.IsFunction isArrow (.mk name params (.mk span (.blockStatement body)) false false)
  | expression {name : Option String} {params : List Node} {body : Node}
    (hparams : ∀ p ∈ params, p.IsParam) (hbody : body.IsExpr) :
    FunctionNode.IsFunction true (.mk name params body false false)

end

/-! ## Symbols -/

namespace UnaryOp

theorem symbol_of_ofSymbol? {symbol : String} {op : UnaryOp} (hop : ofSymbol? symbol = some op) :
    op.symbol = symbol := by
  unfold ofSymbol? at hop
  split at hop <;> cases hop <;> rfl

end UnaryOp

namespace UpdateOp

theorem symbol_of_ofSymbol? {symbol : String} {op : UpdateOp}
    (hop : ofSymbol? symbol = some op) : op.symbol = symbol := by
  unfold ofSymbol? at hop
  split at hop <;> cases hop <;> rfl

end UpdateOp

namespace LogicalOp

theorem symbol_of_ofSymbol? {symbol : String} {op : LogicalOp}
    (hop : ofSymbol? symbol = some op) : op.symbol = symbol := by
  unfold ofSymbol? at hop
  split at hop <;> cases hop <;> rfl

end LogicalOp

namespace BinaryOp

theorem symbol_of_ofSymbol? {symbol : String} {op : BinaryOp}
    (hop : ofSymbol? symbol = some op) : op.symbol = symbol := by
  unfold ofSymbol? at hop
  split at hop <;> cases hop <;> rfl

end BinaryOp

/-- A table that is read as it is written has the symbols of its operators and no others. -/
theorem exists_ofSymbol?_iff {Op : Type} {table : String → Option Op} {write : Op → String}
    (hread : ∀ {symbol op}, table symbol = some op → write op = symbol)
    (hwrite : ∀ op, table (write op) = some op) {symbol : String} :
    (∃ op, table symbol = some op) ↔ ∃ op, write op = symbol := by
  constructor
  · rintro ⟨op, hop⟩
    exact ⟨op, hread hop⟩
  · rintro ⟨op, rfl⟩
    exact ⟨op, hwrite op⟩

namespace AssignOp

/-- Assignments have the symbol of an operator before the sign of equality, or none. -/
theorem exists_ofSymbol?_iff_isSymbol {symbol : String} :
    (∃ op, ofSymbol? symbol = some op) ↔ IsSymbol symbol := by
  constructor
  · rintro ⟨op, hop⟩
    have hchars : symbol = String.ofList symbol.toList := by simp
    unfold ofSymbol? at hop
    split at hop
    · next heq =>
      left
      rw [hchars, List.reverse_eq_iff.1 heq]
      rfl
    · next front _ heq =>
      -- What stands before the last character is the symbol of an operator.
      obtain ⟨binary, hbinary, hassigning⟩ := Option.bind_eq_some_iff.1 hop
      have hfront : binary.symbol = String.ofList front.reverse :=
        BinaryOp.symbol_of_ofSymbol? hbinary
      split at hassigning
      · next hform =>
        refine .inr ⟨binary, hform, ?_⟩
        rw [hchars, List.reverse_eq_iff.1 heq, hfront, List.reverse_cons, String.ofList_append]
      · cases hassigning
    · cases hop
  · rintro (rfl | ⟨op, hform, rfl⟩)
    · exact ⟨.assign, by decide⟩
    · refine ⟨.compound op, ?_⟩
      cases op <;> first | rfl | cases hform

end AssignOp

/-! ## Checking -/

/-- Two checks in a row succeed if both do. -/
theorem Checked.bind_eq_ok_iff {α β : Type} {x : Checked α} {f : α → Checked β} {b : β} :
    x >>= f = .ok b ↔ ∃ a, x = .ok a ∧ f a = .ok b := by
  cases x with
  | error e =>
    constructor
    · intro h
      cases h
    · rintro ⟨a, hx, -⟩
      cases hx
  | ok a =>
    constructor
    · intro h
      exact ⟨a, rfl, h⟩
    · rintro ⟨_, hx, hf⟩
      cases hx
      exact hf

/-- Checking finds no offence. -/
def Accepts {α : Type} (x : Checked α) : Prop := ∃ a, x = .ok a

section Accepts

variable {α β : Type}

@[simp] theorem accepts_ok (a : α) : Accepts (.ok a) := ⟨a, rfl⟩

@[simp] theorem accepts_pure (a : α) : Accepts (pure a) := ⟨a, rfl⟩

@[simp] theorem not_accepts_unsupported (node : Node) :
    ¬ Accepts (node.unsupported : Checked α) := by
  rintro ⟨a, ha⟩
  cases ha

/-- Accepting says nothing of the code that is found. -/
theorem accepts_bind {x : Checked α} {f : α → Checked β} :
    Accepts (x >>= f) ↔ ∃ a, x = .ok a ∧ Accepts (f a) := by
  unfold Accepts
  simp only [Checked.bind_eq_ok_iff]
  constructor
  · rintro ⟨b, a, hx, hf⟩
    exact ⟨a, hx, b, hf⟩
  · rintro ⟨a, hx, b, hf⟩
    exact ⟨b, a, hx, hf⟩

/-- What is checked after `x` is checked in the same way whatever comes of `x`. -/
theorem accepts_bind_iff {x : Checked α} {f : α → Checked β} {P : Prop}
    (hf : ∀ a, Accepts (f a) ↔ P) : Accepts (x >>= f) ↔ Accepts x ∧ P := by
  rw [accepts_bind]
  constructor
  · rintro ⟨a, ha, hrest⟩
    exact ⟨⟨a, ha⟩, (hf a).1 hrest⟩
  · rintro ⟨⟨a, ha⟩, hP⟩
    exact ⟨a, ha, (hf a).2 hP⟩

theorem accepts_map {x : Checked α} {f : α → β} :
    Accepts (x >>= fun a => pure (f a)) ↔ Accepts x := by
  rw [accepts_bind_iff fun a => iff_true_intro (accepts_pure (f a)), and_true]

/-- An operator is accepted if its symbol is in the table. -/
theorem accepts_operator {Op : Type} {table : String → Option Op} {node : Node}
    {symbol : String} : Accepts (node.operator table symbol) ↔ ∃ op, table symbol = some op := by
  unfold Node.operator
  cases table symbol with
  | none => simp [Accepts]
  | some op => simp

/-- A key is checked in one way or another, and then what follows is checked. -/
theorem accepts_key {x y : Checked α} {f : α → Checked β} {computed : Bool} {P : Prop}
    (hf : ∀ a, Accepts (f a) ↔ P) :
    Accepts (if computed = true then x >>= f else y >>= f) ↔
      (if computed = true then Accepts x else Accepts y) ∧ P := by
  split <;> exact accepts_bind_iff hf

/-- What only arrows may be. -/
theorem accepts_arrow {x : Checked α} {f : α → β} {node : Node} {isArrow : Bool} :
    Accepts (if isArrow = true then x >>= fun a => pure (f a) else node.unsupported) ↔
      isArrow = true ∧ Accepts x := by
  split
  · next h => simp only [accepts_map, h, true_and]
  · next h => simp only [not_accepts_unsupported, h, false_and, Bool.false_eq_true]

end Accepts

namespace Node

/-- One case for each kind of node. Only one kind is a name. -/
theorem identifierName_accepts_iff (n : Node) : Accepts n.identifierName ↔ n.IsIdentifier := by
  constructor
  · intro h
    unfold identifierName at h
    split at h
    · exact .intro
    · exact absurd h (not_accepts_unsupported _)
  · intro h
    cases h
    exact accepts_ok _

/-- A plain key is a name, a string or a number. -/
theorem literalKey_accepts_iff (n : Node) : Accepts n.literalKey ↔ n.IsLiteralKey := by
  constructor
  · intro h
    unfold literalKey at h
    split at h
    · exact .identifier
    · exact .string
    · exact .number
    · exact absurd h (not_accepts_unsupported _)
  · intro h
    cases h <;> exact accepts_ok _

theorem memberKey_accepts_iff (n : Node) : Accepts n.memberKey ↔ n.IsIdentifier := by
  unfold memberKey
  rw [accepts_map, n.identifierName_accepts_iff]

/-- Functions are neither generators nor asynchronous. -/
theorem plainFunction_accepts_iff {n : Node} {generator isAsync : Bool} :
    Accepts (n.plainFunction generator isAsync) ↔ generator = false ∧ isAsync = false := by
  unfold plainFunction
  split
  · next h =>
    simp only [not_accepts_unsupported, false_iff]
    simpa [← Bool.or_eq_false_iff] using h
  · next h =>
    simp only [accepts_ok, true_iff]
    simpa using h

end Node

namespace FunctionNode

variable {name : Option String} {params : List Node} {body node : Node}
variable {generator isAsync isArrow : Bool}

/-- A body that is no block is an expression, and only an arrow has one. -/
theorem toCode_of_not_block (hbody : ∀ span stmts, body ≠ .mk span (.blockStatement stmts)) :
    (mk name params body generator isAsync).toCode node isArrow = (do
      node.plainFunction generator isAsync
      let params ← toParams params
      if isArrow = true then
        let expr ← body.toExpr
        return .mk name params [.ret (some expr)] isArrow
      else body.unsupported) := by
  rw [toCode]
  exact hbody

theorem isFunction_iff_of_not_block
    (hbody : ∀ span stmts, body ≠ .mk span (.blockStatement stmts)) :
    (mk name params body generator isAsync).IsFunction isArrow ↔
      (generator = false ∧ isAsync = false) ∧ (∀ p ∈ params, p.IsParam) ∧
        isArrow = true ∧ body.IsExpr := by
  constructor
  · intro h
    cases h with
    | block => exact absurd rfl (hbody _ _)
    | expression hparams hexpr => exact ⟨⟨rfl, rfl⟩, hparams, rfl, hexpr⟩
  · rintro ⟨⟨rfl, rfl⟩, hparams, rfl, hexpr⟩
    exact .expression hparams hexpr

end FunctionNode

namespace Node

variable {span : Option Span} {n right body : Node}

theorem isStmt_forIn_iff :
    (mk span (.forInStatement n right body)).IsStmt ↔
      n.IsLoopTarget ∧ right.IsExpr ∧ body.IsStmt := by
  constructor
  · intro h
    cases h with
    | forIn hleft hright hbody => exact ⟨hleft, hright, hbody⟩
  · rintro ⟨hleft, hright, hbody⟩
    exact .forIn hleft hright hbody

/-- A loop over keys declares one name, and gives it no value. -/
theorem isLoopTarget_declaration_iff {declarations : List (Node × Option Node)}
    {kind : DeclarationKind} : (mk span (.variableDeclaration declarations kind)).IsLoopTarget ↔
      ∃ id, declarations = [(id, none)] ∧ id.IsIdentifier := by
  constructor
  · intro h
    cases h with
    | declaration hid => exact ⟨_, rfl, hid⟩
    | target hx => cases hx
  · rintro ⟨id, rfl, hid⟩
    exact .declaration hid

/-- Anything else has to be something that can be assigned. -/
theorem isLoopTarget_iff_of_not_declaration
    (hn : ∀ span declarations kind, n ≠ mk span (.variableDeclaration declarations kind)) :
    n.IsLoopTarget ↔ n.IsTarget := by
  constructor
  · intro h
    cases h with
    | declaration => exact absurd rfl (hn _ _ _)
    | target hx => exact hx
  · exact .target

theorem isForInit_iff_of_not_declaration
    (hn : ∀ span declarations kind, n ≠ mk span (.variableDeclaration declarations kind)) :
    n.IsForInit ↔ n.IsExpr := by
  constructor
  · intro h
    cases h with
    | declaration => exact absurd rfl (hn _ _ _)
    | expression hx => exact hx
  · exact .expression

end Node

/-! ### Kinds of nodes

With one lemma for each kind of node: what is checked in turn are the parts that the rule of the
kind asks for, and kinds without a rule are refused at once.
-/

-- The equations of these functions are wanted by every lemma below.
attribute [local simp] Node.toExpr Node.toTarget Node.toStmt

namespace NodeKind

/-- Kinds that have a rule as expressions. -/
def isExpression : NodeKind → Bool
  | identifier _ | literal _ | thisExpression | arrayExpression _ | objectExpression _
  | templateLiteral .. | functionExpression _ | arrowFunctionExpression _ | unaryExpression ..
  | updateExpression .. | binaryExpression .. | logicalExpression .. | assignmentExpression ..
  | conditionalExpression .. | sequenceExpression _ | callExpression ..
  | memberExpression .. => true
  | _ => false

/-- Kinds that have a rule as statements. -/
def isStatement : NodeKind → Bool
  | expressionStatement _ | blockStatement _ | emptyStatement | debuggerStatement
  | returnStatement _ | breakStatement _ | continueStatement _ | ifStatement .. | switchStatement ..
  | whileStatement .. | forStatement .. | forInStatement .. | variableDeclaration ..
  | functionDeclaration _ => true
  | _ => false

end NodeKind

namespace Node

variable {span : Option Span} {operator : String} {argument left right test body : Node}

section Expressions

/-- A literal is accepted if scripts have literals of its kind of value. -/
theorem toExpr_literal_iff (value : LiteralValue) :
    Accepts (mk span (.literal value)).toExpr ↔ (mk span (.literal value)).IsExpr := by
  cases value with
  | other json =>
    rw [toExpr]
    refine iff_of_false (not_accepts_unsupported _) ?_
    intro h
    cases h with
    | literal hvalue => exact hvalue json rfl
  | _ =>
    rw [toExpr]
    exact iff_of_true (accepts_ok _) (.literal (by simp))

theorem toExpr_array_iff {elements : List (Option Node)}
    (helements : Accepts (elementsToExprs elements) ↔
      ∀ element ∈ elements, ∀ x ∈ element, x.IsExpr) :
    Accepts (mk span (.arrayExpression elements)).toExpr ↔
      (mk span (.arrayExpression elements)).IsExpr := by
  rw [toExpr, accepts_map, helements]
  constructor
  · exact .array
  · intro h
    cases h with
    | array helements => exact helements

theorem toExpr_object_iff {properties : List Node}
    (hproperties : Accepts (toProperties properties) ↔ ∀ p ∈ properties, p.IsProperty) :
    Accepts (mk span (.objectExpression properties)).toExpr ↔
      (mk span (.objectExpression properties)).IsExpr := by
  rw [toExpr, accepts_map, hproperties]
  constructor
  · exact .object
  · intro h
    cases h with
    | object hproperties => exact hproperties

theorem toExpr_template_iff {quasis : List TemplateElement} {expressions : List Node}
    (hexpressions : Accepts (toExprs expressions) ↔ ∀ x ∈ expressions, x.IsExpr) :
    Accepts (mk span (.templateLiteral quasis expressions)).toExpr ↔
      (mk span (.templateLiteral quasis expressions)).IsExpr := by
  rw [toExpr, accepts_map, hexpressions]
  constructor
  · exact .template
  · intro h
    cases h with
    | template hexpressions => exact hexpressions

theorem toExpr_function_iff {function : FunctionNode}
    (hfunction : ∀ node, Accepts (function.toCode node false) ↔ function.IsFunction false) :
    Accepts (mk span (.functionExpression function)).toExpr ↔
      (mk span (.functionExpression function)).IsExpr := by
  rw [toExpr, accepts_map, hfunction]
  constructor
  · exact .function
  · intro h
    cases h with
    | function hfunction => exact hfunction

theorem toExpr_arrow_iff {function : FunctionNode}
    (hfunction : ∀ node, Accepts (function.toCode node true) ↔ function.IsFunction true) :
    Accepts (mk span (.arrowFunctionExpression function)).toExpr ↔
      (mk span (.arrowFunctionExpression function)).IsExpr := by
  rw [toExpr, accepts_map, hfunction]
  constructor
  · exact .arrow
  · intro h
    cases h with
    | arrow hfunction => exact hfunction

theorem toExpr_unary_iff (hargument : Accepts argument.toExpr ↔ argument.IsExpr) :
    Accepts (mk span (.unaryExpression operator argument)).toExpr ↔
      (mk span (.unaryExpression operator argument)).IsExpr := by
  rw [toExpr, accepts_bind_iff fun _ => accepts_map, accepts_operator,
    exists_ofSymbol?_iff UnaryOp.symbol_of_ofSymbol? UnaryOp.ofSymbol?_symbol, hargument]
  constructor
  · rintro ⟨hop, hargument⟩
    exact .unary hop hargument
  · intro h
    cases h with
    | unary hop hargument => exact ⟨hop, hargument⟩

theorem toExpr_update_iff {leading : Bool}
    (hargument : Accepts argument.toTarget ↔ argument.IsTarget) :
    Accepts (mk span (.updateExpression operator leading argument)).toExpr ↔
      (mk span (.updateExpression operator leading argument)).IsExpr := by
  rw [toExpr, accepts_bind_iff fun _ => accepts_map, accepts_operator,
    exists_ofSymbol?_iff UpdateOp.symbol_of_ofSymbol? UpdateOp.ofSymbol?_symbol, hargument]
  constructor
  · rintro ⟨hop, hargument⟩
    exact .update hop hargument
  · intro h
    cases h with
    | update hop hargument => exact ⟨hop, hargument⟩

theorem toExpr_binary_iff (hleft : Accepts left.toExpr ↔ left.IsExpr)
    (hright : Accepts right.toExpr ↔ right.IsExpr) :
    Accepts (mk span (.binaryExpression operator left right)).toExpr ↔
      (mk span (.binaryExpression operator left right)).IsExpr := by
  rw [toExpr, accepts_bind_iff fun _ => accepts_bind_iff fun _ => accepts_map, accepts_operator,
    exists_ofSymbol?_iff BinaryOp.symbol_of_ofSymbol? BinaryOp.ofSymbol?_symbol, hleft, hright]
  constructor
  · rintro ⟨hop, hleft, hright⟩
    exact .binary hop hleft hright
  · intro h
    cases h with
    | binary hop hleft hright => exact ⟨hop, hleft, hright⟩

theorem toExpr_logical_iff (hleft : Accepts left.toExpr ↔ left.IsExpr)
    (hright : Accepts right.toExpr ↔ right.IsExpr) :
    Accepts (mk span (.logicalExpression operator left right)).toExpr ↔
      (mk span (.logicalExpression operator left right)).IsExpr := by
  rw [toExpr, accepts_bind_iff fun _ => accepts_bind_iff fun _ => accepts_map, accepts_operator,
    exists_ofSymbol?_iff LogicalOp.symbol_of_ofSymbol? LogicalOp.ofSymbol?_symbol, hleft, hright]
  constructor
  · rintro ⟨hop, hleft, hright⟩
    exact .logical hop hleft hright
  · intro h
    cases h with
    | logical hop hleft hright => exact ⟨hop, hleft, hright⟩

theorem toExpr_assignment_iff (hleft : Accepts left.toTarget ↔ left.IsTarget)
    (hright : Accepts right.toExpr ↔ right.IsExpr) :
    Accepts (mk span (.assignmentExpression operator left right)).toExpr ↔
      (mk span (.assignmentExpression operator left right)).IsExpr := by
  rw [toExpr, accepts_bind_iff fun _ => accepts_bind_iff fun _ => accepts_map, accepts_operator,
    AssignOp.exists_ofSymbol?_iff_isSymbol, hleft, hright]
  constructor
  · rintro ⟨hop, hleft, hright⟩
    exact .assignment hop hleft hright
  · intro h
    cases h with
    | assignment hop hleft hright => exact ⟨hop, hleft, hright⟩

theorem toExpr_conditional_iff {consequent alternate : Node}
    (htest : Accepts test.toExpr ↔ test.IsExpr)
    (hconsequent : Accepts consequent.toExpr ↔ consequent.IsExpr)
    (halternate : Accepts alternate.toExpr ↔ alternate.IsExpr) :
    Accepts (mk span (.conditionalExpression test consequent alternate)).toExpr ↔
      (mk span (.conditionalExpression test consequent alternate)).IsExpr := by
  rw [toExpr, accepts_bind_iff fun _ => accepts_bind_iff fun _ => accepts_map, htest, hconsequent,
    halternate]
  constructor
  · rintro ⟨htest, hconsequent, halternate⟩
    exact .conditional htest hconsequent halternate
  · intro h
    cases h with
    | conditional htest hconsequent halternate => exact ⟨htest, hconsequent, halternate⟩

theorem toExpr_sequence_iff {expressions : List Node}
    (hexpressions : Accepts (toExprs expressions) ↔ ∀ x ∈ expressions, x.IsExpr) :
    Accepts (mk span (.sequenceExpression expressions)).toExpr ↔
      (mk span (.sequenceExpression expressions)).IsExpr := by
  rw [toExpr, accepts_map, hexpressions]
  constructor
  · exact .sequence
  · intro h
    cases h with
    | sequence hexpressions => exact hexpressions

theorem toExpr_call_iff {callee : Node} {arguments : List Node}
    (hcallee : Accepts callee.toExpr ↔ callee.IsExpr)
    (harguments : Accepts (toExprs arguments) ↔ ∀ x ∈ arguments, x.IsExpr) :
    Accepts (mk span (.callExpression callee arguments)).toExpr ↔
      (mk span (.callExpression callee arguments)).IsExpr := by
  rw [toExpr, accepts_bind_iff fun _ => accepts_map, harguments, hcallee]
  constructor
  · rintro ⟨harguments, hcallee⟩
    exact .call hcallee harguments
  · intro h
    cases h with
    | call hcallee harguments => exact ⟨harguments, hcallee⟩

variable {object property : Node} {computed : Bool}

theorem toExpr_member_iff (hobject : Accepts object.toExpr ↔ object.IsExpr)
    (hkey : (if computed = true then Accepts property.toExpr else Accepts property.memberKey) ↔
      property.IsMemberKey computed) :
    Accepts (mk span (.memberExpression object property computed)).toExpr ↔
      (mk span (.memberExpression object property computed)).IsExpr := by
  rw [toExpr, accepts_bind_iff fun _ => accepts_key fun _ => iff_true_intro (accepts_pure _),
    and_true, hobject, hkey]
  constructor
  · rintro ⟨hobject, hkey⟩
    exact .member hobject hkey
  · intro h
    cases h with
    | member hobject hkey => exact ⟨hobject, hkey⟩

/-- All other kinds are refused, and have no rule. -/
theorem toExpr_iff_of_not_isExpression {kind : NodeKind} (hkind : kind.isExpression = false) :
    Accepts (mk span kind).toExpr ↔ (mk span kind).IsExpr := by
  refine iff_of_false ?_ fun h => ?_
  · rw [toExpr]
    · exact not_accepts_unsupported _
    -- The kind is none of those that come before.
    all_goals
      intros
      injections
      subst_vars
      cases hkind
  · cases h <;> cases hkind

theorem toTarget_member_iff (hobject : Accepts object.toExpr ↔ object.IsExpr)
    (hkey : (if computed = true then Accepts property.toExpr else Accepts property.memberKey) ↔
      property.IsMemberKey computed) :
    Accepts (mk span (.memberExpression object property computed)).toTarget ↔
      (mk span (.memberExpression object property computed)).IsTarget := by
  rw [toTarget, accepts_bind_iff fun _ => accepts_key fun _ => iff_true_intro (accepts_pure _),
    and_true, hobject, hkey]
  constructor
  · rintro ⟨hobject, hkey⟩
    exact .member hobject hkey
  · intro h
    cases h with
    | member hobject hkey => exact ⟨hobject, hkey⟩

/-- Only names and members can be assigned. -/
theorem toTarget_iff_of_refused {kind : NodeKind} (hname : ∀ name, kind ≠ .identifier name)
    (hmember : ∀ object property computed, kind ≠ .memberExpression object property computed) :
    Accepts (mk span kind).toTarget ↔ (mk span kind).IsTarget := by
  refine iff_of_false ?_ fun h => ?_
  · rw [toTarget]
    · exact not_accepts_unsupported _
    · rintro _ name ⟨⟩
      exact hname name rfl
    · rintro _ object property computed ⟨⟩
      exact hmember object property computed rfl
  · cases h with
    | identifier => exact hname _ rfl
    | member => exact hmember _ _ _ rfl

end Expressions

section Keys

variable {key : Node}

/-- A key in brackets is an expression, and one behind a point a name. -/
theorem memberKeyOf_iff {computed : Bool} (hkey : Accepts key.toExpr ↔ key.IsExpr) :
    (if computed = true then Accepts key.toExpr else Accepts key.memberKey) ↔
      key.IsMemberKey computed := by
  cases computed with
  | true =>
    rw [if_pos rfl, hkey]
    constructor
    · exact .computed
    · intro h
      cases h with
      | computed hkey => exact hkey
  | false =>
    rw [if_neg Bool.false_ne_true, key.memberKey_accepts_iff]
    constructor
    · exact .plain
    · intro h
      cases h with
      | plain hkey => exact hkey

/-- The key of a property may be computed. If it is not, it may also be a literal. -/
theorem propertyKey_iff {computed : Bool} (hkey : Accepts key.toExpr ↔ key.IsExpr) :
    (if computed = true then Accepts key.toExpr else Accepts key.literalKey) ↔
      key.IsPropertyKey computed := by
  cases computed with
  | true =>
    rw [if_pos rfl, hkey]
    constructor
    · exact .computed
    · intro h
      cases h with
      | computed hkey => exact hkey
  | false =>
    rw [if_neg Bool.false_ne_true, key.literalKey_accepts_iff]
    constructor
    · exact .plain
    · intro h
      cases h with
      | plain hkey => exact hkey

end Keys

section Statements

theorem toStmt_expression_iff {x : Node} (hx : Accepts x.toExpr ↔ x.IsExpr) :
    Accepts (mk span (.expressionStatement x)).toStmt ↔
      (mk span (.expressionStatement x)).IsStmt := by
  rw [toStmt, accepts_map, hx]
  constructor
  · exact .expression
  · intro h
    cases h with
    | expression hx => exact hx

theorem toStmt_block_iff {stmts : List Node}
    (hstmts : Accepts (toStmts stmts) ↔ ∀ s ∈ stmts, s.IsStmt) :
    Accepts (mk span (.blockStatement stmts)).toStmt ↔
      (mk span (.blockStatement stmts)).IsStmt := by
  rw [toStmt, accepts_map, hstmts]
  constructor
  · exact .block
  · intro h
    cases h with
    | block hstmts => exact hstmts

theorem toStmt_return_iff {argument : Option Node}
    (hargument : Accepts (optionToExpr argument) ↔ ∀ x ∈ argument, x.IsExpr) :
    Accepts (mk span (.returnStatement argument)).toStmt ↔
      (mk span (.returnStatement argument)).IsStmt := by
  rw [toStmt, accepts_map, hargument]
  constructor
  · exact .ret
  · intro h
    cases h with
    | ret hargument => exact hargument

/-- Labels are not known, so a `break` with a label is refused. -/
theorem toStmt_break_iff (label : Option Node) :
    Accepts (mk span (.breakStatement label)).toStmt ↔
      (mk span (.breakStatement label)).IsStmt := by
  rw [toStmt]
  cases label with
  | none => exact iff_of_true (accepts_ok _) .brk
  | some label =>
    refine iff_of_false (not_accepts_unsupported _) fun h => ?_
    cases h

theorem toStmt_continue_iff (label : Option Node) :
    Accepts (mk span (.continueStatement label)).toStmt ↔
      (mk span (.continueStatement label)).IsStmt := by
  rw [toStmt]
  cases label with
  | none => exact iff_of_true (accepts_ok _) .cont
  | some label =>
    refine iff_of_false (not_accepts_unsupported _) fun h => ?_
    cases h

theorem toStmt_if_iff {consequent : Node} {alternate : Option Node}
    (htest : Accepts test.toExpr ↔ test.IsExpr)
    (hconsequent : Accepts consequent.toStmt ↔ consequent.IsStmt)
    (halternate : Accepts (optionToStmt alternate) ↔ ∀ s ∈ alternate, s.IsStmt) :
    Accepts (mk span (.ifStatement test consequent alternate)).toStmt ↔
      (mk span (.ifStatement test consequent alternate)).IsStmt := by
  rw [toStmt, accepts_bind_iff fun _ => accepts_bind_iff fun _ => accepts_map, htest, hconsequent,
    halternate]
  constructor
  · rintro ⟨htest, hconsequent, halternate⟩
    exact .ifElse htest hconsequent halternate
  · intro h
    cases h with
    | ifElse htest hconsequent halternate => exact ⟨htest, hconsequent, halternate⟩

theorem toStmt_switch_iff {discriminant : Node} {cases : List (Option Node × List Node)}
    (hdiscriminant : Accepts discriminant.toExpr ↔ discriminant.IsExpr)
    (hclauses : Accepts (toClauses cases) ↔
      (∀ c ∈ cases, ∀ x ∈ c.1, x.IsExpr) ∧ ∀ c ∈ cases, ∀ s ∈ c.2, s.IsStmt) :
    Accepts (mk span (.switchStatement discriminant cases)).toStmt ↔
      (mk span (.switchStatement discriminant cases)).IsStmt := by
  rw [toStmt, accepts_bind_iff fun _ => accepts_map, hdiscriminant, hclauses]
  constructor
  · rintro ⟨hdiscriminant, htests, hstmts⟩
    exact .switch hdiscriminant htests hstmts
  · intro h
    cases h with
    | switch hdiscriminant htests hstmts => exact ⟨hdiscriminant, htests, hstmts⟩

theorem toStmt_while_iff (htest : Accepts test.toExpr ↔ test.IsExpr)
    (hbody : Accepts body.toStmt ↔ body.IsStmt) :
    Accepts (mk span (.whileStatement test body)).toStmt ↔
      (mk span (.whileStatement test body)).IsStmt := by
  rw [toStmt, accepts_bind_iff fun _ => accepts_map, htest, hbody]
  constructor
  · rintro ⟨htest, hbody⟩
    exact .whileLoop htest hbody
  · intro h
    cases h with
    | whileLoop htest hbody => exact ⟨htest, hbody⟩

theorem toStmt_for_iff {init test update : Option Node}
    (hinit : Accepts (toForInit init) ↔ ∀ x ∈ init, x.IsForInit)
    (htest : Accepts (optionToExpr test) ↔ ∀ x ∈ test, x.IsExpr)
    (hupdate : Accepts (optionToExpr update) ↔ ∀ x ∈ update, x.IsExpr)
    (hbody : Accepts body.toStmt ↔ body.IsStmt) :
    Accepts (mk span (.forStatement init test update body)).toStmt ↔
      (mk span (.forStatement init test update body)).IsStmt := by
  rw [toStmt,
    accepts_bind_iff fun _ => accepts_bind_iff fun _ => accepts_bind_iff fun _ => accepts_map,
    hinit, htest, hupdate, hbody]
  constructor
  · rintro ⟨hinit, htest, hupdate, hbody⟩
    exact .forLoop hinit htest hupdate hbody
  · intro h
    cases h with
    | forLoop hinit htest hupdate hbody => exact ⟨hinit, htest, hupdate, hbody⟩

/-- Of declarations one name alone may stand before the keys of a loop; any other left side is
checked as the target of an assignment. -/
theorem toStmt_forIn_iff (hleft : Accepts left.toTarget ↔ left.IsTarget)
    (hright : Accepts right.toExpr ↔ right.IsExpr) (hbody : Accepts body.toStmt ↔ body.IsStmt) :
    Accepts (mk span (.forInStatement left right body)).toStmt ↔
      (mk span (.forInStatement left right body)).IsStmt := by
  rw [isStmt_forIn_iff]
  by_cases hdeclaration : ∃ span declarations kind,
      left = mk span (.variableDeclaration declarations kind)
  · obtain ⟨span, declarations, kind, rfl⟩ := hdeclaration
    rw [isLoopTarget_declaration_iff]
    -- One name without value is accepted. No declaration, a value or a second name is not.
    match declarations with
    | [(id, none)] =>
      rw [toStmt, accepts_bind_iff fun _ => accepts_bind_iff fun _ => accepts_map,
        id.identifierName_accepts_iff, hright, hbody]
      simp
    | [] | [(_, some _)] | _ :: _ :: _ =>
      rw [toStmt] <;> simp
  · have hnot : ∀ span declarations kind,
        left ≠ mk span (.variableDeclaration declarations kind) :=
      fun span declarations kind h => hdeclaration ⟨span, declarations, kind, h⟩
    rw [toStmt, accepts_bind_iff fun _ => accepts_bind_iff fun _ => accepts_map, hleft, hright,
      hbody, isLoopTarget_iff_of_not_declaration hnot]
    · exact fun _ _ _ => hnot _ _ _
    · exact hnot

theorem toStmt_declaration_iff {declarations : List (Node × Option Node)} {kind : DeclarationKind}
    (hdeclarations : Accepts (toDeclarations declarations) ↔
      (∀ d ∈ declarations, d.1.IsIdentifier) ∧ ∀ d ∈ declarations, ∀ x ∈ d.2, x.IsExpr) :
    Accepts (mk span (.variableDeclaration declarations kind)).toStmt ↔
      (mk span (.variableDeclaration declarations kind)).IsStmt := by
  rw [toStmt, accepts_map, hdeclarations]
  constructor
  · rintro ⟨hids, hinits⟩
    exact .declaration hids hinits
  · intro h
    cases h with
    | declaration hids hinits => exact ⟨hids, hinits⟩

theorem toStmt_function_iff {function : FunctionNode}
    (hfunction : ∀ node, Accepts (function.toCode node false) ↔ function.IsFunction false) :
    Accepts (mk span (.functionDeclaration function)).toStmt ↔
      (mk span (.functionDeclaration function)).IsStmt := by
  rw [toStmt, accepts_map, hfunction]
  constructor
  · exact .function
  · intro h
    cases h with
    | function hfunction => exact hfunction

/-- All other kinds are refused, and have no rule. -/
theorem toStmt_iff_of_not_isStatement {kind : NodeKind} (hkind : kind.isStatement = false) :
    Accepts (mk span kind).toStmt ↔ (mk span kind).IsStmt := by
  refine iff_of_false ?_ fun h => ?_
  · rw [toStmt]
    · exact not_accepts_unsupported _
    all_goals
      intros
      injections
      subst_vars
      cases hkind
  · cases h <;> cases hkind

end Statements

end Node

/-! ### Lists of nodes -/

section Lists

variable {node : Node} {rest : List Node} {span : Option Span} {kind : NodeKind}

/-- A property with a value is accepted for its key and its value. -/
theorem toProperties_init_iff {key value : Node} {computed : Bool}
    (hkey : Accepts key.toExpr ↔ key.IsExpr) (hvalue : Accepts value.toExpr ↔ value.IsExpr)
    (hrest : Accepts (toProperties rest) ↔ ∀ p ∈ rest, p.IsProperty) :
    Accepts (toProperties (.mk span (.property key value computed .init) :: rest)) ↔
      ∀ p ∈ Node.mk span (.property key value computed .init) :: rest, p.IsProperty := by
  rw [toProperties, accepts_key fun _ => accepts_bind_iff fun _ => accepts_map,
    Node.propertyKey_iff hkey, hvalue, hrest, List.forall_mem_cons, ← and_assoc]
  refine and_congr_left fun _ => ?_
  constructor
  · rintro ⟨hkey, hvalue⟩
    exact .init hkey hvalue
  · intro h
    cases h with
    | init hkey hvalue => exact ⟨hkey, hvalue⟩

/-- Accessors are refused, and so is whatever is no property. -/
theorem toProperties_iff_of_refused
    (hkind : ∀ key value computed, kind ≠ .property key value computed .init) :
    Accepts (toProperties (.mk span kind :: rest)) ↔
      ∀ p ∈ Node.mk span kind :: rest, p.IsProperty := by
  refine iff_of_false ?_ fun h => ?_
  · rw [toProperties]
    · exact not_accepts_unsupported _
    · rintro _ key value computed ⟨⟩
      exact hkind key value computed rfl
  · cases (List.forall_mem_cons.1 h).1 with
    | init => exact hkind _ _ _ rfl

theorem toParams_name_iff {name : String}
    (hrest : Accepts (toParams rest) ↔ ∀ p ∈ rest, p.IsParam) :
    Accepts (toParams (.mk span (.identifier name) :: rest)) ↔
      ∀ p ∈ Node.mk span (.identifier name) :: rest, p.IsParam := by
  rw [toParams, accepts_map, hrest, List.forall_mem_cons]
  exact (and_iff_right .name).symm

/-- A parameter with a default is a name and an expression. -/
theorem toParams_withDefault_iff {left right : Node}
    (hright : Accepts right.toExpr ↔ right.IsExpr)
    (hrest : Accepts (toParams rest) ↔ ∀ p ∈ rest, p.IsParam) :
    Accepts (toParams (.mk span (.assignmentPattern left right) :: rest)) ↔
      ∀ p ∈ Node.mk span (.assignmentPattern left right) :: rest, p.IsParam := by
  rw [toParams, accepts_bind_iff fun _ => accepts_bind_iff fun _ => accepts_map,
    left.identifierName_accepts_iff, hright, hrest, List.forall_mem_cons, ← and_assoc]
  refine and_congr_left fun _ => ?_
  constructor
  · rintro ⟨hleft, hright⟩
    exact .withDefault hleft hright
  · intro h
    cases h with
    | withDefault hleft hright => exact ⟨hleft, hright⟩

theorem toParams_iff_of_refused (hname : ∀ name, kind ≠ .identifier name)
    (hdefault : ∀ left right, kind ≠ .assignmentPattern left right) :
    Accepts (toParams (.mk span kind :: rest)) ↔ ∀ p ∈ Node.mk span kind :: rest, p.IsParam := by
  refine iff_of_false ?_ fun h => ?_
  · rw [toParams]
    · exact not_accepts_unsupported _
    · rintro _ name ⟨⟩
      exact hname name rfl
    · rintro _ left right ⟨⟩
      exact hdefault left right rfl
  · cases (List.forall_mem_cons.1 h).1 with
    | name => exact hname _ rfl
    | withDefault => exact hdefault _ _ rfl

theorem toForInit_declaration_iff {declarations : List (Node × Option Node)}
    {declared : DeclarationKind}
    (hdeclarations : Accepts (toDeclarations declarations) ↔
      (∀ d ∈ declarations, d.1.IsIdentifier) ∧ ∀ d ∈ declarations, ∀ x ∈ d.2, x.IsExpr) :
    Accepts (toForInit (some (.mk span (.variableDeclaration declarations declared)))) ↔
      (Node.mk span (.variableDeclaration declarations declared)).IsForInit := by
  rw [toForInit, accepts_map, hdeclarations]
  constructor
  · rintro ⟨hids, hinits⟩
    exact .declaration hids hinits
  · intro h
    cases h with
    | declaration hids hinits => exact ⟨hids, hinits⟩
    | expression hx => cases hx

/-- What is no declaration is an expression. -/
theorem toForInit_expression_iff
    (hnode : ∀ span declarations kind, node ≠ .mk span (.variableDeclaration declarations kind))
    (hexpr : Accepts node.toExpr ↔ node.IsExpr) :
    Accepts (toForInit (some node)) ↔ node.IsForInit := by
  rw [toForInit, accepts_map, hexpr, Node.isForInit_iff_of_not_declaration hnode]
  exact hnode

end Lists

namespace FunctionNode

variable {name : Option String} {params : List Node} {body node : Node}
  {generator isAsync isArrow : Bool}

/-- A function with a block for its body is accepted for its parameters and its statements. -/
theorem toCode_block_iff {span : Option Span} {stmts : List Node}
    (hparams : Accepts (toParams params) ↔ ∀ p ∈ params, p.IsParam)
    (hstmts : Accepts (toStmts stmts) ↔ ∀ s ∈ stmts, s.IsStmt) :
    Accepts ((mk name params (.mk span (.blockStatement stmts)) generator isAsync).toCode node
      isArrow) ↔
      (mk name params (.mk span (.blockStatement stmts)) generator isAsync).IsFunction isArrow := by
  rw [toCode, accepts_bind_iff fun _ => accepts_bind_iff fun _ => accepts_map,
    Node.plainFunction_accepts_iff, hparams, hstmts]
  constructor
  · rintro ⟨⟨rfl, rfl⟩, hparams, hstmts⟩
    exact .block hparams hstmts
  · intro h
    cases h with
    | block hparams hstmts => exact ⟨⟨rfl, rfl⟩, hparams, hstmts⟩
    | expression _ hbody => cases hbody

/-- Any body but a block is checked as the expression that an arrow returns. -/
theorem toCode_expression_iff (hbody : ∀ span stmts, body ≠ .mk span (.blockStatement stmts))
    (hparams : Accepts (toParams params) ↔ ∀ p ∈ params, p.IsParam)
    (hexpr : Accepts body.toExpr ↔ body.IsExpr) :
    Accepts ((mk name params body generator isAsync).toCode node isArrow) ↔
      (mk name params body generator isAsync).IsFunction isArrow := by
  rw [toCode_of_not_block hbody, isFunction_iff_of_not_block hbody,
    accepts_bind_iff fun _ => accepts_bind_iff fun _ => accepts_arrow,
    Node.plainFunction_accepts_iff, hparams, hexpr]

end FunctionNode

/-! ### Trees

By induction on the tree.
-/

open Node FunctionNode in
mutual

/-- By induction on the tree, together with the theorems below: one case for each kind. -/
theorem Node.toExpr_accepts_iff : ∀ n : Node, Accepts n.toExpr ↔ n.IsExpr
  | .mk span kind => by
    cases kind with
    | identifier name =>
      rw [Node.toExpr]
      exact iff_of_true (accepts_ok _) .identifier
    | literal value => exact toExpr_literal_iff value
    | thisExpression =>
      rw [Node.toExpr]
      exact iff_of_true (accepts_ok _) .this
    | arrayExpression elements => exact toExpr_array_iff (elementsToExprs_accepts_iff elements)
    | objectExpression properties => exact toExpr_object_iff (toProperties_accepts_iff properties)
    | templateLiteral _ expressions => exact toExpr_template_iff (toExprs_accepts_iff expressions)
    | functionExpression function =>
      exact toExpr_function_iff fun node => function.toCode_accepts_iff node false
    | arrowFunctionExpression function =>
      exact toExpr_arrow_iff fun node => function.toCode_accepts_iff node true
    | unaryExpression _ argument => exact toExpr_unary_iff argument.toExpr_accepts_iff
    | updateExpression _ _ argument => exact toExpr_update_iff argument.toTarget_accepts_iff
    | binaryExpression _ left right =>
      exact toExpr_binary_iff left.toExpr_accepts_iff right.toExpr_accepts_iff
    | logicalExpression _ left right =>
      exact toExpr_logical_iff left.toExpr_accepts_iff right.toExpr_accepts_iff
    | assignmentExpression _ left right =>
      exact toExpr_assignment_iff left.toTarget_accepts_iff right.toExpr_accepts_iff
    | conditionalExpression test consequent alternate =>
      exact toExpr_conditional_iff test.toExpr_accepts_iff consequent.toExpr_accepts_iff
        alternate.toExpr_accepts_iff
    | sequenceExpression expressions => exact toExpr_sequence_iff (toExprs_accepts_iff expressions)
    | callExpression callee arguments =>
      exact toExpr_call_iff callee.toExpr_accepts_iff (toExprs_accepts_iff arguments)
    | memberExpression object property _ =>
      exact toExpr_member_iff object.toExpr_accepts_iff
        (memberKeyOf_iff property.toExpr_accepts_iff)
    | _ => exact toExpr_iff_of_not_isExpression rfl

theorem Node.toTarget_accepts_iff : ∀ n : Node, Accepts n.toTarget ↔ n.IsTarget
  | .mk span kind => by
    cases kind with
    | identifier name =>
      rw [Node.toTarget]
      exact iff_of_true (accepts_ok _) .identifier
    | memberExpression object property _ =>
      exact toTarget_member_iff object.toExpr_accepts_iff
        (memberKeyOf_iff property.toExpr_accepts_iff)
    | _ => exact toTarget_iff_of_refused nofun nofun

theorem toExprs_accepts_iff : ∀ nodes : List Node,
    Accepts (toExprs nodes) ↔ ∀ x ∈ nodes, x.IsExpr
  | [] => by
    rw [toExprs]
    exact iff_of_true (accepts_ok _) (List.forall_mem_nil _)
  | node :: rest => by
    rw [toExprs, accepts_bind_iff fun _ => accepts_map, node.toExpr_accepts_iff,
      toExprs_accepts_iff rest, List.forall_mem_cons]

theorem optionToExpr_accepts_iff : ∀ node : Option Node,
    Accepts (optionToExpr node) ↔ ∀ x ∈ node, x.IsExpr
  | none => by
    rw [optionToExpr]
    exact iff_of_true (accepts_ok _) nofun
  | some node => by
    rw [optionToExpr, accepts_map, node.toExpr_accepts_iff]
    simp

theorem elementsToExprs_accepts_iff : ∀ elements : List (Option Node),
    Accepts (elementsToExprs elements) ↔ ∀ element ∈ elements, ∀ x ∈ element, x.IsExpr
  | [] => by
    rw [elementsToExprs]
    exact iff_of_true (accepts_ok _) (List.forall_mem_nil _)
  | element :: rest => by
    rw [elementsToExprs, accepts_bind_iff fun _ => accepts_map, optionToExpr_accepts_iff element,
      elementsToExprs_accepts_iff rest, List.forall_mem_cons]

theorem toProperties_accepts_iff : ∀ properties : List Node,
    Accepts (toProperties properties) ↔ ∀ p ∈ properties, p.IsProperty
  | [] => by
    rw [toProperties]
    exact iff_of_true (accepts_ok _) (List.forall_mem_nil _)
  | .mk span kind :: rest => by
    cases kind with
    | property key value _ kind =>
      cases kind with
      | init =>
        exact toProperties_init_iff key.toExpr_accepts_iff value.toExpr_accepts_iff
          (toProperties_accepts_iff rest)
      | get | set => exact toProperties_iff_of_refused nofun
    | _ => exact toProperties_iff_of_refused nofun

theorem FunctionNode.toCode_accepts_iff : ∀ (f : FunctionNode) (node : Node) (isArrow : Bool),
    Accepts (f.toCode node isArrow) ↔ f.IsFunction isArrow
  | .mk _ params (.mk span kind) generator isAsync, node, isArrow => by
    have hparams := toParams_accepts_iff params
    have hexpr := (Node.mk span kind).toExpr_accepts_iff
    cases kind with
    | blockStatement stmts => exact toCode_block_iff hparams (toStmts_accepts_iff stmts)
    | _ => exact toCode_expression_iff nofun hparams hexpr

theorem toParams_accepts_iff : ∀ params : List Node,
    Accepts (toParams params) ↔ ∀ p ∈ params, p.IsParam
  | [] => by
    rw [toParams]
    exact iff_of_true (accepts_ok _) (List.forall_mem_nil _)
  | .mk span kind :: rest => by
    cases kind with
    | identifier name => exact toParams_name_iff (toParams_accepts_iff rest)
    | assignmentPattern left right =>
      exact toParams_withDefault_iff right.toExpr_accepts_iff (toParams_accepts_iff rest)
    | _ => exact toParams_iff_of_refused nofun nofun

/-- By induction on the tree. The same node is told differently as an expression or as a target. -/
theorem Node.toStmt_accepts_iff : ∀ n : Node, Accepts n.toStmt ↔ n.IsStmt
  | .mk span kind => by
    cases kind with
    | expressionStatement x => exact toStmt_expression_iff x.toExpr_accepts_iff
    | blockStatement stmts => exact toStmt_block_iff (toStmts_accepts_iff stmts)
    | emptyStatement =>
      rw [Node.toStmt]
      exact iff_of_true (accepts_ok _) .empty
    | debuggerStatement =>
      rw [Node.toStmt]
      exact iff_of_true (accepts_ok _) .debugger
    | returnStatement argument => exact toStmt_return_iff (optionToExpr_accepts_iff argument)
    | breakStatement label => exact toStmt_break_iff label
    | continueStatement label => exact toStmt_continue_iff label
    | ifStatement test consequent alternate =>
      exact toStmt_if_iff test.toExpr_accepts_iff consequent.toStmt_accepts_iff
        (optionToStmt_accepts_iff alternate)
    | switchStatement discriminant cases =>
      exact toStmt_switch_iff discriminant.toExpr_accepts_iff (toClauses_accepts_iff cases)
    | whileStatement test body =>
      exact toStmt_while_iff test.toExpr_accepts_iff body.toStmt_accepts_iff
    | forStatement init test update body =>
      exact toStmt_for_iff (toForInit_accepts_iff init) (optionToExpr_accepts_iff test)
        (optionToExpr_accepts_iff update) body.toStmt_accepts_iff
    | forInStatement left right body =>
      exact toStmt_forIn_iff left.toTarget_accepts_iff right.toExpr_accepts_iff
        body.toStmt_accepts_iff
    | variableDeclaration declarations _ =>
      exact toStmt_declaration_iff (toDeclarations_accepts_iff declarations)
    | functionDeclaration function =>
      exact toStmt_function_iff fun node => function.toCode_accepts_iff node false
    | _ => exact toStmt_iff_of_not_isStatement rfl

theorem optionToStmt_accepts_iff : ∀ node : Option Node,
    Accepts (optionToStmt node) ↔ ∀ s ∈ node, s.IsStmt
  | none => by
    rw [optionToStmt]
    exact iff_of_true (accepts_ok _) nofun
  | some node => by
    rw [optionToStmt, accepts_map, node.toStmt_accepts_iff]
    simp

theorem toStmts_accepts_iff : ∀ nodes : List Node,
    Accepts (toStmts nodes) ↔ ∀ s ∈ nodes, s.IsStmt
  | [] => by
    rw [toStmts]
    exact iff_of_true (accepts_ok _) (List.forall_mem_nil _)
  | node :: rest => by
    rw [toStmts, accepts_bind_iff fun _ => accepts_map, node.toStmt_accepts_iff,
      toStmts_accepts_iff rest, List.forall_mem_cons]

theorem toDeclarations_accepts_iff : ∀ declarations : List (Node × Option Node),
    Accepts (toDeclarations declarations) ↔
      (∀ d ∈ declarations, d.1.IsIdentifier) ∧ ∀ d ∈ declarations, ∀ x ∈ d.2, x.IsExpr
  | [] => by
    rw [toDeclarations]
    exact iff_of_true (accepts_ok _) ⟨List.forall_mem_nil _, List.forall_mem_nil _⟩
  | (id, init) :: rest => by
    rw [toDeclarations, accepts_bind_iff fun _ => accepts_bind_iff fun _ => accepts_map,
      id.identifierName_accepts_iff, optionToExpr_accepts_iff init, toDeclarations_accepts_iff rest,
      List.forall_mem_cons, List.forall_mem_cons, ← and_assoc, and_and_and_comm]

/-- All statements of a clause are checked, though only the first of them is run. -/
theorem toClauses_accepts_iff : ∀ cases : List (Option Node × List Node),
    Accepts (toClauses cases) ↔
      (∀ c ∈ cases, ∀ x ∈ c.1, x.IsExpr) ∧ ∀ c ∈ cases, ∀ s ∈ c.2, s.IsStmt
  | [] => by
    rw [toClauses]
    exact iff_of_true (accepts_ok _) ⟨List.forall_mem_nil _, List.forall_mem_nil _⟩
  | (test, consequent) :: rest => by
    rw [toClauses, accepts_bind_iff fun _ => accepts_bind_iff fun _ => accepts_map,
      toStmts_accepts_iff consequent, optionToExpr_accepts_iff test, toClauses_accepts_iff rest,
      List.forall_mem_cons, List.forall_mem_cons, and_left_comm, ← and_assoc, and_and_and_comm]

theorem toForInit_accepts_iff : ∀ init : Option Node,
    Accepts (toForInit init) ↔ ∀ x ∈ init, x.IsForInit
  | none => by
    rw [toForInit]
    exact iff_of_true (accepts_ok _) nofun
  | some (.mk span kind) => by
    have hexpr := (Node.mk span kind).toExpr_accepts_iff
    have hsome : (∀ x ∈ some (Node.mk span kind), x.IsForInit) ↔ (Node.mk span kind).IsForInit := by
      simp
    rw [hsome]
    cases kind with
    | variableDeclaration declarations _ =>
      exact toForInit_declaration_iff (toDeclarations_accepts_iff declarations)
    | _ => exact toForInit_expression_iff nofun hexpr

end

/-! ## Programs -/

/-- A program is a script exactly if all its statements are in the grammar, whatever the
settings. -/
theorem Script.compile_succeeds_iff (program : Program) (settings : Settings) :
    (∃ script, Script.compile program settings = .ok script) ↔ ∀ s ∈ program.body, s.IsStmt := by
  have hmap : Script.compile program settings =
      toStmts program.body >>= fun code => pure { code, settings } := by
    unfold Script.compile Program.toCode
    cases toStmts program.body <;> rfl
  show Accepts (Script.compile program settings) ↔ _
  rw [hmap, accepts_map, toStmts_accepts_iff]

end HostScript
