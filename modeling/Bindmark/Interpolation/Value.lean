import Bindmark.Segment
import Bindmark.Settings.Basic

/-!
# Interpolated attribute values

The directive value of an interpolated attribute. A lone expression is the
value itself. Anything else becomes a sum of strings and unwrapped
expressions that begins with the empty string.
-/

namespace Bindmark.Interpolation

def quoteLiteral (t : Text) : Text := lit "\"" ++ Text.replaceChar '"' (lit "\\\"") t ++ lit "\""

/-- A segment as a term of a sum. -/
def term (s : Settings) : Segment → Text
  | .literal t => quoteLiteral t
  | .expression t => s.unwrapFunction ++ lit "(" ++ t ++ lit ")"

def attributeValue (s : Settings) : List Segment → Text
  | [] => []
  | [.literal _] => []
  | [.expression t] => t
  | segments => lit "\"\"+" ++ Text.join (lit "+") (segments.map (term s))

end Bindmark.Interpolation
