import EdgeQuery.Operator
import EdgeQuery.Reference

/-!
Expressions. Parentheses are kept as nodes of their own, so an expression remembers how it was
grouped in its text.
-/

namespace EdgeQuery

inductive Literal
  | string (content : String)
  | number (value : UInt64)
  | duration (value : Duration)
deriving DecidableEq, Repr

inductive ObjectKey
  | raw (name : String)
  | dotted (names : List String)
  | string (content : String)
deriving DecidableEq, Repr

/-- A function of a namespace, with arguments of type `α` if a list of them was written. -/
structure NamespaceCall (α : Type) where
  space : String
  function : String
  args : Option (List α)

/-- What a call applies its arguments to. -/
inductive Callee (α : Type)
  | identifier (identifier : Identifier)
  | path (segments : List Identifier)
  | namespaceCall (call : NamespaceCall α)

inductive Expr
  | literal (value : Literal)
  | reference (reference : FieldReference)
  | variable (name : String)
  | binary (left : Expr) (op : BinaryOp) (right : Expr)
  | call (callee : Callee Expr) (args : List Expr)
  | namespaceCall (call : NamespaceCall Expr)
  | object (entries : List (ObjectKey × Expr))
  | array (items : List Expr)
  | paren (inner : Expr)

namespace Expr

/-- References and calls may stand in a select list without a name of their own. -/
def isReferenceOrCall : Expr → Bool
  | .reference _ | .call _ _ | .namespaceCall _ => true
  | _ => false

mutual

/-- Whether two trees are the same. -/
def same : Expr → Expr → Bool
  | .literal a, .literal b => a == b
  | .reference a, .reference b => a == b
  | .variable a, .variable b => a == b
  | .binary l op r, .binary l' op' r' => same l l' && op == op' && same r r'
  | .call callee args, .call callee' args' => sameCallee callee callee' && sameItems args args'
  | .namespaceCall a, .namespaceCall b => sameCall a b
  | .object entries, .object entries' => sameEntries entries entries'
  | .array items, .array items' => sameItems items items'
  | .paren e, .paren e' => same e e'
  | _, _ => false
termination_by structural e => e

def sameCallee : Callee Expr → Callee Expr → Bool
  | .identifier a, .identifier b => a == b
  | .path a, .path b => a == b
  | .namespaceCall a, .namespaceCall b => sameCall a b
  | _, _ => false
termination_by structural callee => callee

def sameCall : NamespaceCall Expr → NamespaceCall Expr → Bool
  | ⟨space, function, args⟩, ⟨space', function', args'⟩ =>
    space == space' && function == function' && sameArgs args args'
termination_by structural call => call

def sameArgs : Option (List Expr) → Option (List Expr) → Bool
  | none, none => true
  | some es, some es' => sameItems es es'
  | _, _ => false
termination_by structural es => es

def sameItems : List Expr → List Expr → Bool
  | [], [] => true
  | e :: es, e' :: es' => same e e' && sameItems es es'
  | _, _ => false
termination_by structural es => es

def sameEntries : List (ObjectKey × Expr) → List (ObjectKey × Expr) → Bool
  | [], [] => true
  | (key, e) :: es, (key', e') :: es' => key == key' && same e e' && sameEntries es es'
  | _, _ => false
termination_by structural es => es

end

instance : BEq Expr := ⟨same⟩

end Expr
end EdgeQuery
