import Reckon.Text.Blank
import Reckon.Variable

/-! Bindings: texts that give a variable a value, as in `rate = 0.5`. -/

namespace Reckon.Binding

/-- Why a text is no binding. -/
inductive Fault where
  | noValue (text : String)
  | badName (name : String)
  | badValue (name : String) (fault : Numeral.Fault)
  deriving DecidableEq, Repr

def Fault.message : Fault → String
  | .noValue text => "expected NAME=VALUE, found '" ++ text ++ "'"
  | .badName name => "'" ++ name ++ "' is not a valid variable name"
  | .badValue name fault => "invalid value for '" ++ name ++ "': " ++ fault.message

/-- Reads a name and a value with the first equals sign between them. Blanks around either
do not count. -/
def read (text : String) : Except Fault (String × Float) :=
  match text.toList.dropWhile (· ≠ '=') with
  | [] => .error (.noValue text)
  | _ :: after =>
    let letters := Text.trim (text.toList.takeWhile (· ≠ '='))
    let name := String.ofList letters
    if Variable.isName letters then
      match Numeral.read (Text.trim after) with
      | .ok value => .ok (name, value)
      | .error fault => .error (.badValue name fault)
    else .error (.badName name)

end Reckon.Binding
