import EdgeQuery.Piece

/-!
Binary operators and their five levels of precedence, and how tightly the tokens bind that stand for
operators. All operators associate to the left.
-/

namespace EdgeQuery

/-- The levels of precedence, the loosest first. -/
inductive Precedence
  | or | and | comparison | additive | multiplicative
deriving DecidableEq, Repr

namespace Precedence

/-- How tightly the level binds. -/
def rank : Precedence → Nat
  | or => 0
  | and => 1
  | comparison => 2
  | additive => 3
  | multiplicative => 4

end Precedence

inductive BinaryOp
  | or | and
  | equal | notEqual | greater | less | greaterEqual | lessEqual | contains | inside
  | add | sub | mul | div | mod
deriving DecidableEq, Repr

namespace BinaryOp

def level : BinaryOp → Precedence
  | or => .or
  | and => .and
  | equal | notEqual | greater | less | greaterEqual | lessEqual | contains | inside => .comparison
  | add | sub => .additive
  | mul | div | mod => .multiplicative

/-- How the operator is written. -/
def piece : BinaryOp → Piece
  | or => .keyword .OR
  | and => .keyword .AND
  | equal => .symbol .equal
  | notEqual => .symbol .notEqual
  | greater => .symbol .greater
  | less => .symbol .less
  | greaterEqual => .symbol .greaterEqual
  | lessEqual => .symbol .lessEqual
  | contains => .keyword .CONTAINS
  | inside => .keyword .INSIDE
  | add => .symbol .plus
  | sub => .symbol .minus
  | mul => .symbol .star
  | div => .symbol .slash
  | mod => .symbol .percent

def text (op : BinaryOp) : String :=
  op.piece.text

/-- The operator that a token stands for. The logical ones have a second spelling each. -/
def ofToken? : TokenKind → Option BinaryOp
  | .keyword .OR | .symbol .bars => some or
  | .keyword .AND | .symbol .ampersands => some and
  | .symbol .equal => some equal
  | .symbol .notEqual => some notEqual
  | .symbol .greater => some greater
  | .symbol .less => some less
  | .symbol .greaterEqual => some greaterEqual
  | .symbol .lessEqual => some lessEqual
  | .keyword .CONTAINS => some contains
  | .keyword .INSIDE => some inside
  | .symbol .plus => some add
  | .symbol .minus => some sub
  | .symbol .star => some mul
  | .symbol .slash => some div
  | .symbol .percent => some mod
  | _ => none

/-- How tightly the operator that a token stands for binds the operand on its left, and the one on
its right. The right one is bound more tightly, so operators of one kind associate to the left. -/
def bindingPower? : TokenKind → Option (Nat × Nat)
  | .keyword .OR | .symbol .bars => some (1, 2)
  | .keyword .AND | .symbol .ampersands => some (3, 4)
  | .symbol .equal | .symbol .notEqual | .symbol .less | .symbol .lessEqual | .symbol .greater
  | .symbol .greaterEqual | .keyword .CONTAINS | .keyword .INSIDE => some (5, 6)
  | .symbol .plus | .symbol .minus => some (7, 8)
  | .symbol .star | .symbol .slash | .symbol .percent => some (9, 10)
  | _ => none

/-- The operator that a token stands for, if it binds on its left with at least the given power, and
the power with which it binds on its right. -/
def bound? (least : Nat) (kind : TokenKind) : Option (BinaryOp × Nat) :=
  match bindingPower? kind with
  | some (left, right) => if left < least then none else (ofToken? kind).map (·, right)
  | none => none

end BinaryOp
end EdgeQuery
