import EdgeQuery.Expr
import EdgeQuery.Reference.Parse

/-!
Reading expressions. The parts of an expression are read by parsers that take the parser of whole
expressions as an argument; the recursion between them is on the number of nesting levels that are
left, and every operator of a chain takes one, as every nested part does.
-/

namespace EdgeQuery

open Parse Walk

/-- Reads the key of an object's entry. Keys are plain names, never records. -/
def ObjectKey.parse : Parse ObjectKey := do
  match ← kind 0 with
  | .string content => advance; return .string content
  | _ =>
    match (← get).name? 0 with
    | none => expected [.objectKey]
    | some name =>
      advance
      let more ← repeated nextName?
      return if more.isEmpty then .raw name else .dotted (name :: more)

namespace Expr

/-- Reads the arguments of a call, whose parenthesis stands here. -/
def parseArguments (expression : Parse Expr) : Parse (List Expr) :=
  delimitedList .paren expression

/-- Reads the items of an array, whose bracket stands here. -/
def parseItems (expression : Parse Expr) : Parse (List Expr) :=
  delimitedList .bracket expression

def parseEntry (expression : Parse Expr) : Parse (ObjectKey × Expr) := do
  let key ← ObjectKey.parse
  symbol .colon
  return (key, ← expression)

/-- Reads the entries of an object. -/
def parseEntries (expression : Parse Expr) : Parse (List (ObjectKey × Expr)) := do
  if ← atSymbol (.opening .brace) then delimitedList .brace (parseEntry expression)
  else expected [.symbol (.opening .brace)]

/-- Reads a function of a namespace, the arguments if there are any, and the arguments to which
the outcome is applied if there are any of those. -/
def parseNamespaceCall (expression : Parse Expr) : Parse Expr := do
  let space ← identifier
  symbol .doubleColon
  let function ← identifier
  let args ← onlyIf (atSymbol (.opening .paren)) (parseArguments expression)
  if ← atSymbol (.opening .paren) then
    return .call (.namespaceCall ⟨space, function, args⟩) (← parseArguments expression)
  else return .namespaceCall ⟨space, function, args⟩

/-- Reads a reference, or a call of it. An edge is not called. -/
def parseReference (expression : Parse Expr) : Parse Expr := do
  let target ← FieldReference.parse
  if ← atSymbol (.opening .paren) then
    match target with
    | .identifier id => return .call (.identifier id) (← parseArguments expression)
    | .path segments => return .call (.path segments) (← parseArguments expression)
    | .edge _ _ => return .reference target
  else return .reference target

/-- Reads an operand that brackets enclose. -/
def parseEnclosed (expression : Parse Expr) : Delimiter → Parse Expr
  | .paren => return .paren (← within .paren expression)
  | .bracket => return .array (← parseItems expression)
  | .brace => return .object (← parseEntries expression)

/-- Reads an operand. -/
def parsePrimary (expression : Parse Expr) : Parse Expr := do
  match ← kind 0 with
  | .number value => advance; return .literal (.number value)
  | .duration value => advance; return .literal (.duration value)
  | .string content => advance; return .literal (.string content)
  | .variable name => advance; return .variable name
  | .symbol (.opening delimiter) => parseEnclosed expression delimiter
  | .symbol (.arrow _) => parseReference expression
  | .identifier _ =>
    match ← kind 1 with
    | .symbol .doubleColon => parseNamespaceCall expression
    | _ => parseReference expression
  | _ => expected [.expression]

/-- The operator that stands here, if it binds with at least the given power, and the least power
with which operators bind in its right operand. -/
def operator? (least : Nat) : Parse (Option (BinaryOp × Nat)) := do
  return BinaryOp.bound? least (← kind 0)

mutual

/-- Reads an expression whose operators outside brackets bind with at least the given power, when
`levels` nesting levels are left. -/
def parseRanked : (levels : Nat) → (least : Nat) → Parse Expr
  | 0, _ => tooDeep
  | levels + 1, least => nested levels do
    let left ← parsePrimary (parseRanked levels 0)
    parseOperators levels least left
termination_by structural levels => levels

/-- Reads the operators that follow the operand `left`, with their right operands. -/
def parseOperators : (levels : Nat) → (least : Nat) → (left : Expr) → Parse Expr
  | 0, least, left => do
    match ← operator? least with
    | some _ => tooDeep
    | none => return left
  | levels + 1, least, left => do
    match ← operator? least with
    | some (op, power) => nested levels do
      advance
      let right ← parseRanked levels power
      parseOperators levels least (.binary left op right)
    | none => return left
termination_by structural levels => levels

end

/-- Reads an expression, with the nesting levels that the cursor has left. -/
def parse : Parse Expr := do
  parseRanked (← get).levels 0

end Expr
end EdgeQuery
