import A64Lowering.Json.Token

/-! # Reading JSON

* `Frame`: a container part way through; `Progress`: the open containers and what may come next.
* `Progress.step`: what one token does.
* `read?`: the value of a text, if the text is one JSON value between blanks. -/
namespace A64Lowering.Json
set_option autoImplicit false

abbrev Member := Option String × Json

/-- A container whose end has not come yet, with its parts so far, last first. -/
inductive Frame where
  | array (items : List Json)
  /-- The value under `name` comes next. -/
  | object (members : List Member) (name : Option String)

/-- What may come next, inside the open containers, innermost first. -/
inductive Progress where
  /-- A value. -/
  | value (outer : List Frame)
  /-- The first item of an array, or its end. -/
  | firstItem (outer : List Frame)
  /-- The first name of an object, or its end. -/
  | firstName (outer : List Frame)
  /-- A further name of an object. -/
  | nextName (members : List Member) (outer : List Frame)
  /-- The colon after a name. -/
  | colon (members : List Member) (name : Option String) (outer : List Frame)
  /-- What follows a finished value. -/
  | after (v : Json) (outer : List Frame)

namespace Progress

/-- Begins a value. -/
def begin? (outer : List Frame) : Token → Option Progress
  | .scalar s => some (.after (.scalar s) outer)
  | .beginArray => some (.firstItem outer)
  | .beginObject => some (.firstName outer)
  | _ => none

/-- What one token does; none if it may not come here. -/
def step : Progress → Token → Option Progress
  | .value outer, t => begin? outer t
  | .firstItem outer, .endArray => some (.after (.array []) outer)
  | .firstItem outer, t => begin? (.array [] :: outer) t
  | .firstName outer, .endObject => some (.after (.object []) outer)
  | .firstName outer, .scalar (.string key) => some (.colon [] key outer)
  | .nextName members outer, .scalar (.string key) => some (.colon members key outer)
  | .colon members key outer, .colon => some (.value (.object members key :: outer))
  | .after v (.array items :: outer), .comma => some (.value (.array (v :: items) :: outer))
  | .after v (.array items :: outer), .endArray =>
    some (.after (.array (v :: items).reverse) outer)
  | .after v (.object members key :: outer), .comma => some (.nextName ((key, v) :: members) outer)
  | .after v (.object members key :: outer), .endObject =>
    some (.after (.object ((key, v) :: members).reverse) outer)
  | _, _ => none

/-- The finished value, once nothing is open. -/
def finished? : Progress → Option Json
  | .after v [] => some v
  | _ => none

end Progress

/-- The value that a run of tokens spells. -/
def ofTokens? (ts : List Token) : Option Json :=
  (ts.foldlM Progress.step (.value [])).bind Progress.finished?

/-- The value of a JSON text. -/
def read? (text : String) : Option Json := (tokens? text.toList).bind ofTokens?

end A64Lowering.Json
