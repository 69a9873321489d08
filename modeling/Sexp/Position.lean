/-!
# Places in a source

A place is a line and a column, both counted from one. A column counts bytes, not characters, and
the newline byte opens the next line; every other byte, a tab or a carriage return too, takes one
column. `Position.after_append` lets a place be computed piece by piece.
-/

namespace Sexp

def newline : UInt8 := 0x0A

/-- A line and a column of a source, both counted from one, columns in bytes. -/
structure Position where
  line : Nat
  column : Nat
  deriving DecidableEq, Inhabited

namespace Position

def start : Position := ⟨1, 1⟩

/-- The place just past byte `b`, when `b` stands at `p`. -/
def afterByte (p : Position) (b : UInt8) : Position :=
  if b = newline then ⟨p.line + 1, 1⟩ else ⟨p.line, p.column + 1⟩

/-- The place just past `bytes`, when the first of them stands at `p`. -/
def after (p : Position) (bytes : List UInt8) : Position :=
  bytes.foldl afterByte p

@[simp] theorem after_nil (p : Position) : p.after [] = p := rfl

@[simp] theorem after_cons (p : Position) (b : UInt8) (bytes : List UInt8) :
    p.after (b :: bytes) = (p.afterByte b).after bytes := rfl

theorem after_append (p : Position) (xs ys : List UInt8) :
    p.after (xs ++ ys) = (p.after xs).after ys :=
  List.foldl_append

/-- A place of a text that itself begins at `origin`: lines add up, and only the text's first line
shares its columns with what stands before it. -/
def relativeTo (origin p : Position) : Position :=
  ⟨origin.line + p.line - 1, if p.line = 1 then origin.column + p.column - 1 else p.column⟩

end Position
end Sexp
