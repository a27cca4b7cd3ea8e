import ReactiveTemplate.Number.Layout
import ReactiveTemplate.Text.Quoted

/-!
# Values

The values that literals stand for.
-/

namespace ReactiveTemplate

/-- The value of a literal. -/
inductive Value where
  | number (x : Binary64)
  | string (s : String)
  | boolean (b : Bool)
  | null
deriving DecidableEq, Inhabited

namespace Value

/-- A value as it is shown to people. -/
def display : Value → String
  | number x => x.display
  | string s => quoted s
  | boolean b => if b then "true" else "false"
  | null => "null"

/-- Whether a value is a number. -/
def isNumber : Value → Bool
  | number _ => true
  | _ => false

end Value

end ReactiveTemplate
