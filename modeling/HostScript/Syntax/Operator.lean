/-!
# Operators

The fixed operator tables of scripts. A syntax tree carries operators as the symbols of its source;
`ofSymbol?` finds the operator a symbol stands for, and `symbol` writes it back.
-/

namespace HostScript

/-- Operators between two values. -/
inductive BinaryOp where
  | add | sub | mul | div | rem | pow
  | looseEq | looseNe | strictEq | strictNe
  | lt | le | gt | ge
  | bitAnd | bitOr | bitXor | shl | shr | ushr
  | contains
  deriving DecidableEq, Repr

/-- Operators that choose one of their operands. -/
inductive LogicalOp where
  | and | or | coalesce
  deriving DecidableEq, Repr

inductive UnaryOp where
  | neg | plus | not | bitNot | typeOf | void
  deriving DecidableEq, Repr

inductive UpdateOp where
  | increment | decrement
  deriving DecidableEq, Repr

/-- Plain assignment, or assignment of an operator's result on the old value. -/
inductive AssignOp where
  | assign
  | compound (op : BinaryOp)
  deriving DecidableEq, Repr

namespace BinaryOp

def symbol : BinaryOp → String
  | add => "+" | sub => "-" | mul => "*" | div => "/" | rem => "%" | pow => "**"
  | looseEq => "==" | looseNe => "!=" | strictEq => "===" | strictNe => "!=="
  | lt => "<" | le => "<=" | gt => ">" | ge => ">="
  | bitAnd => "&" | bitOr => "|" | bitXor => "^" | shl => "<<" | shr => ">>" | ushr => ">>>"
  | contains => "in"

def ofSymbol? : String → Option BinaryOp
  | "+" => some add
  | "-" => some sub
  | "*" => some mul
  | "/" => some div
  | "%" => some rem
  | "**" => some pow
  | "==" => some looseEq
  | "!=" => some looseNe
  | "===" => some strictEq
  | "!==" => some strictNe
  | "<" => some lt
  | "<=" => some le
  | ">" => some gt
  | ">=" => some ge
  | "&" => some bitAnd
  | "|" => some bitOr
  | "^" => some bitXor
  | "<<" => some shl
  | ">>" => some shr
  | ">>>" => some ushr
  | "in" => some contains
  | _ => none

/-- Whether the operator has an assigning form: arithmetic and bitwise ones do. -/
def isAssigning : BinaryOp → Bool
  | add | sub | mul | div | rem | pow | bitAnd | bitOr | bitXor | shl | shr | ushr => true
  | looseEq | looseNe | strictEq | strictNe | lt | le | gt | ge | contains => false

theorem ofSymbol?_symbol (op : BinaryOp) : ofSymbol? op.symbol = some op := by cases op <;> rfl

end BinaryOp

namespace LogicalOp

def symbol : LogicalOp → String
  | and => "&&" | or => "||" | coalesce => "??"

def ofSymbol? : String → Option LogicalOp
  | "&&" => some and
  | "||" => some or
  | "??" => some coalesce
  | _ => none

theorem ofSymbol?_symbol (op : LogicalOp) : ofSymbol? op.symbol = some op := by cases op <;> rfl

end LogicalOp

namespace UnaryOp

def symbol : UnaryOp → String
  | neg => "-" | plus => "+" | not => "!" | bitNot => "~" | typeOf => "typeof" | void => "void"

def ofSymbol? : String → Option UnaryOp
  | "-" => some neg
  | "+" => some plus
  | "!" => some not
  | "~" => some bitNot
  | "typeof" => some typeOf
  | "void" => some void
  | _ => none

theorem ofSymbol?_symbol (op : UnaryOp) : ofSymbol? op.symbol = some op := by cases op <;> rfl

end UnaryOp

namespace UpdateOp

def symbol : UpdateOp → String
  | increment => "++" | decrement => "--"

def ofSymbol? : String → Option UpdateOp
  | "++" => some increment
  | "--" => some decrement
  | _ => none

/-- The amount that the update adds. -/
def delta : UpdateOp → Float
  | increment => 1
  | decrement => -1

theorem ofSymbol?_symbol (op : UpdateOp) : ofSymbol? op.symbol = some op := by cases op <;> rfl

end UpdateOp

namespace AssignOp

def symbol : AssignOp → String
  | assign => "="
  | compound op => op.symbol ++ "="

/-- An assigning symbol is `=` alone, or behind an operator that has an assigning form. -/
def ofSymbol? (symbol : String) : Option AssignOp :=
  match symbol.toList.reverse with
  | ['='] => some assign
  | '=' :: front =>
    (BinaryOp.ofSymbol? (String.ofList front.reverse)).bind fun op =>
      if op.isAssigning then some (compound op) else none
  | _ => none

/-- The operator that a compound assignment applies. -/
def binary? : AssignOp → Option BinaryOp
  | assign => none
  | compound op => some op

end AssignOp

end HostScript
