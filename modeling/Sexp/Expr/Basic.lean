import Sexp.Decimal.Basic

/-!
# Expressions

The trees that a source spells: lists of expressions, symbols, strings and decimals. Two expressions
are the same if they have the same shape, the same texts, and decimals that are worth the same, so
`1` and `1.0` are one expression.
-/

namespace Sexp

/-- A tree. -/
inductive Expr
  | list (items : List Expr)
  | symbol (name : String)
  | string (value : String)
  | number (value : Decimal)
  deriving Inhabited

namespace Expr

def kindName : Expr → String
  | list _ => "list"
  | symbol _ => "symbol"
  | string _ => "string"
  | number _ => "number"

def items? : Expr → Option (List Expr)
  | list items => some items
  | _ => none

def symbolName? : Expr → Option String
  | symbol name => some name
  | _ => none

def isAtom (e : Expr) : Bool := e.items?.isNone

/-! ### Sameness -/

mutual

/-- Whether two expressions have the same shape and texts, and decimals that are worth the same. -/
def same : Expr → Expr → Bool
  | list xs, list ys => sameAll xs ys
  | symbol a, symbol b => a == b
  | string a, string b => a == b
  | number a, number b => a.same b
  | _, _ => false

def sameAll : List Expr → List Expr → Bool
  | [], [] => true
  | x :: xs, y :: ys => same x y && sameAll xs ys
  | _, _ => false

end

/-! ### All nodes -/

mutual

/-- The nodes of an expression that stands at `depth`, each before its children. -/
def nodes (depth : Nat) : Expr → List (Nat × Expr)
  | list items => (depth, list items) :: nodesAll (depth + 1) items
  | e => [(depth, e)]

/-- The nodes of expressions that stand at `depth`, in order. -/
def nodesAll (depth : Nat) : List Expr → List (Nat × Expr)
  | [] => []
  | e :: es => nodes depth e ++ nodesAll depth es

end

end Expr
end Sexp
