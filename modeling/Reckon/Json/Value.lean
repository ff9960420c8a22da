import Reckon.Json.Token

/-! JSON values, as far as a reader of texts needs them. -/

namespace Reckon

inductive Json where
  | scalar
  | text (content : Option String)
  | list (items : List Json)
  | record (members : List (Option String × Json))

namespace Json

/-- A list or record whose end has not been read. What it holds so far stands latest first. -/
inductive Unclosed where
  | list (items : List Json)
  /-- The value of `name` comes next. -/
  | record (members : List (Option String × Json)) (name : Option String)

mutual

/-- Reads tokens where a value must start, inside the lists and records that are open. -/
def start? (outer : List Unclosed) : List Token → Option Json
  | .scalar :: rest => resume? outer .scalar rest
  | .text content :: rest => resume? outer (.text content) rest
  | .openList :: .closeList :: rest => resume? outer (.list []) rest
  | .openList :: rest => start? (.list [] :: outer) rest
  | .openRecord :: .closeRecord :: rest => resume? outer (.record []) rest
  | .openRecord :: .text name :: .colon :: rest => start? (.record [] name :: outer) rest
  | _ => none

/-- Reads tokens after a value. -/
def resume? : List Unclosed → Json → List Token → Option Json
  | [], value, [] => some value
  | .list items :: outer, value, .comma :: rest => start? (.list (value :: items) :: outer) rest
  | .list items :: outer, value, .closeList :: rest =>
    resume? outer (.list (value :: items).reverse) rest
  | .record members name :: outer, value, .comma :: .text next :: .colon :: rest =>
    start? (.record ((name, value) :: members) next :: outer) rest
  | .record members name :: outer, value, .closeRecord :: rest =>
    resume? outer (.record ((name, value) :: members).reverse) rest
  | _, _, _ => none

end

/-- The value that bytes are written as, with nothing after it. -/
def read? (bytes : Bytes) : Option Json := (Token.scan? bytes).bind (start? [])

/-- The text under a name, when exactly one member has that name. -/
def field? (members : List (Option String × Json)) (name : String) : Option String :=
  match members.filter (·.1 == some name) with
  | [(_, .text content)] => content
  | _ => none

end Json

end Reckon
