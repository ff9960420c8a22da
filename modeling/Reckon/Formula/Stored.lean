import Reckon.Formula
import Reckon.Json.Value

/-! The stored form of a list of formulas: a JSON list of records with an id, a name and an
expression. It is written in one way and read in every spelling. -/

namespace Reckon.Formula

/-- A record with the three texts, each once, and any other members; or a list of the three. -/
def ofJson? : Json → Option Formula
  | .list [.text id, .text name, .text expression] => return ⟨← id, ← name, ← expression⟩
  | .record members =>
    if members.all (·.1.isSome) then
      return ⟨← Json.field? members "id", ← Json.field? members "name",
        ← Json.field? members "expression"⟩
    else none
  | _ => none

/-- The formulas that bytes store. -/
def readList? (bytes : Bytes) : Option (List Formula) :=
  match Json.read? bytes with
  | some (.list items) => items.mapM ofJson?
  | _ => none

/-- A named text of a record. -/
def writeField (name value : String) : List Char :=
  Json.Text.write name ++ ':' :: Json.Text.write value

def write (f : Formula) : List Char :=
  '{' :: (writeField "id" f.id ++ ',' :: (writeField "name" f.name ++
    ',' :: (writeField "expression" f.expression ++ ['}'])))

/-- The bytes that formulas are stored as. -/
def writeList (formulas : List Formula) : Bytes :=
  Bytes.ofChars ('[' :: ((formulas.map write).intersperse [',']).flatten ++ [']'])

end Reckon.Formula
