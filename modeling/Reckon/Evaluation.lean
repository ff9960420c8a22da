import Reckon.Postfix
import Reckon.Token.Lexer
import Reckon.Variable

/-! Evaluation of an expression: values for its variables, tokens, postfix order, value. -/

namespace Reckon

/-- The value of an expression, with chains of powers grouped as `power` says. -/
def evaluate (power : Grouping) (values : Assignment) (expression : String) :
    Except EvalError Float := do
  let tokens ← Token.read (Variable.substitute values expression).toList
  let items ← Postfix.ofTokens power tokens
  Postfix.value items

end Reckon
