import Bindmark.Text.Basic

/-!
# Segments

Interpolated text is a sequence of literals and expressions. Neither is ever
empty.
-/

namespace Bindmark

inductive Segment where
  /-- Text that is kept as it is. -/
  | literal (text : Text)
  /-- Text between an opening and a closing token. -/
  | expression (text : Text)
  deriving DecidableEq

namespace Segment

def text : Segment → Text
  | .literal t => t
  | .expression t => t

def isExpression : Segment → Bool
  | .literal _ => false
  | .expression _ => true

/-- A literal, unless it is empty. -/
def literal? (t : Text) : List Segment := if t.isEmpty then [] else [.literal t]

/-- An expression, unless it is empty. -/
def expression? (t : Text) : List Segment := if t.isEmpty then [] else [.expression t]

end Segment
end Bindmark
