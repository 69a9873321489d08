import Sexp.Cursor
import Sexp.Expr.Builder

/-!
# Reading a source

`Cursor.read` reads all expressions from where a cursor stands, up to the end of the source or the
first fault, and tells where the cursor stands then; after a fault it can be asked again, and reads
on from there with no list open. `read` does so once, for a whole source.
-/

namespace Sexp

namespace Cursor

/-- The expressions that begin with those of the builder and go on at the cursor. -/
def readInto (b : Builder) (c : Cursor) : Except Error (List Expr) × Cursor :=
  match h : c.scan with
  | (.error e, next) => (.error e, next)
  | (.ok t, next) =>
    if ht : t.isEof then (b.finish, next)
    else
      have : next.rest.length < c.rest.length := rest_scan_lt h (by simpa using ht)
      match b.push t with
      | .error e => (.error e, next)
      | .ok b => next.readInto b
termination_by c.rest.length

/-- All expressions from the cursor on, or the first fault, and the cursor past what was read. -/
def read (c : Cursor) : Except Error (List Expr) × Cursor := c.readInto .empty

end Cursor

/-- The expressions of a source, or its first fault. -/
def read (source : List UInt8) : Except Error (List Expr) := (Cursor.ofSource source).read.1

def version : String := "0.1.0"

end Sexp
