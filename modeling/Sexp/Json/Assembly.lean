import Sexp.Json.Lexical

/-!
# JSON values from their parts

The parts of a text are taken one by one, and what is open around the place that has been reached is
kept as a stack, the innermost first. Each part must fit what may come there: a value, a name, a
colon, or a comma or closing bracket after a value. When the parts are used up, one value must be
complete and nothing open.
-/

namespace Sexp.Json

/-- What is open around a value: an array with the items before it, or an object with the members
before it and the name it goes by; the newest first. -/
inductive Context
  | item (before : List Json)
  | member (before : List (RawString × Json)) (name : RawString)

/-- What may come next. -/
inductive Expected
  | value (around : List Context)
  | itemOrEnd (around : List Context)
  | nameOrEnd (around : List Context)
  | name (before : List (RawString × Json)) (around : List Context)
  | colon (before : List (RawString × Json)) (name : RawString) (around : List Context)
  | after (value : Json) (around : List Context)

namespace Expected

/-- The part begins a value, or is a whole one. -/
def begin (around : List Context) : Part → Option Expected
  | .openArray => some (.itemOrEnd around)
  | .openObject => some (.nameOrEnd around)
  | .null => some (.after .null around)
  | .bool b => some (.after (.bool b) around)
  | .number n => some (.after (.number n) around)
  | .string s => some (.after (.string s) around)
  | _ => none

/-- One more part. -/
def step : Expected → Part → Option Expected
  | .value around, p => begin around p
  | .itemOrEnd around, .closeArray => some (.after (.array []) around)
  | .itemOrEnd around, p => begin (.item [] :: around) p
  | .nameOrEnd around, .closeObject => some (.after (.object []) around)
  | .nameOrEnd around, .string key => some (.colon [] key around)
  | .name before around, .string key => some (.colon before key around)
  | .colon before key around, .colon => some (.value (.member before key :: around))
  | .after v (.item before :: around), .comma => some (.value (.item (v :: before) :: around))
  | .after v (.item before :: around), .closeArray =>
    some (.after (.array (v :: before).reverse) around)
  | .after v (.member before key :: around), .comma => some (.name ((key, v) :: before) around)
  | .after v (.member before key :: around), .closeObject =>
    some (.after (.object ((key, v) :: before).reverse) around)
  | _, _ => none

def finish : Expected → Option Json
  | .after v [] => some v
  | _ => none

end Expected

/-- The value that a row of parts makes up. -/
def assemble? (ps : List Part) : Option Json :=
  (ps.foldlM Expected.step (.value [])).bind Expected.finish

/-- The value that a text spells. -/
def read? (text : String) : Option Json := (parts? text.toList).bind assemble?

end Sexp.Json
