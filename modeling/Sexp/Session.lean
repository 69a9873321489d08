import Sexp.Reader

/-!
# Asking a cursor again and again

A session is a row of requests to one cursor: for one token, for all tokens to the end, or for all
expressions to the end. Each request is answered from where the one before it stopped, whether that
one met a fault or not.
-/

namespace Sexp

/-- What can be asked of a cursor. -/
inductive Request
  | scan
  | scanAll
  | read
  deriving DecidableEq

inductive Reply
  | token (result : Except Error Token)
  | tokens (result : Except Error (List Token))
  | exprs (result : Except Error (List Expr))

namespace Cursor

/-- The answer to one request, and the cursor past what was read for it. -/
def answer (c : Cursor) : Request → Reply × Cursor
  | .scan => let (result, next) := c.scan; (.token result, next)
  | .scanAll => let (result, next) := c.scanAll; (.tokens result, next)
  | .read => let (result, next) := c.read; (.exprs result, next)

/-- The answers to requests one after the other, each with the cursor after it. -/
def answers (c : Cursor) : List Request → List (Reply × Cursor)
  | [] => []
  | r :: rs => c.answer r :: answers (c.answer r).2 rs

/-- The cursor after requests one after the other. -/
def afterRequests (c : Cursor) (rs : List Request) : Cursor :=
  rs.foldl (fun c r => (c.answer r).2) c

theorem afterRequests_append (c : Cursor) (rs ss : List Request) :
    c.afterRequests (rs ++ ss) = (c.afterRequests rs).afterRequests ss :=
  List.foldl_append

end Cursor
end Sexp
