import Bindmark.Segment

/-!
# Scanning interpolated text

The markup of a text runs from its first opening token to its last closing
token. Within it expressions end from the right: the last closing token that
still has an opening token after it ends an expression, the nearest opening
token after it begins the next one, and what lies between the two is literal.
A closing token with no opening token after it belongs to its expression.
-/

namespace Bindmark.Segment

/-! ## Cutting a region -/

/-- The place of the closing token at which the last expression of a region is
    cut off: the last one that ends before the last opening token. -/
def closing? (opening closing region : Text) : Option Nat :=
  (Text.lastIndexOf? opening region).bind fun i => Text.lastIndexOf? closing (region.take i)

/-- The place of the first opening token after a position. -/
def openingFrom? (opening region : Text) (start : Nat) : Option Nat :=
  (Text.indexOf? opening (region.drop start)).map (start + ·)

/-- What is left of a region, the literal that is cut off and the expression
    after it. -/
structure Cut where
  rest : Text
  literal : Text
  expression : Text

/-- The cut of the last expression and of the literal before it, if the region
    holds more than one expression. -/
def cut? (opening closing region : Text) : Option Cut :=
  (closing? opening closing region).bind fun close =>
    (openingFrom? opening region (close + closing.length)).map fun start =>
      { rest := region.take close
        literal := (region.take start).drop (close + closing.length)
        expression := region.drop (start + opening.length) }

/-- The expressions of a region and the literals between them. -/
def splitRegion (opening closing region : Text) : List Segment :=
  match cut? opening closing region with
  | none => expression? region
  | some cut =>
    if cut.rest.length < region.length then
      splitRegion opening closing cut.rest ++ literal? cut.literal ++ expression? cut.expression
    else expression? region
termination_by region.length

/-! ## Scanning -/

/-- The text before the markup, the markup without its outer tokens, and the
    text after it. -/
structure Markup where
  before : Text
  region : Text
  after : Text

/-- The markup of a text: from the first opening token to the last closing
    token, if that one follows. -/
def markup? (opening closing text : Text) : Option Markup :=
  (Text.indexOf? opening text).bind fun start =>
    (Text.lastIndexOf? closing text).bind fun stop =>
      if stop < start + opening.length then none
      else some
        { before := text.take start
          region := (text.take stop).drop (start + opening.length)
          after := text.drop (stop + closing.length) }

/-- The segments of a text, or nothing when it holds no markup. The list is
    empty when every segment is. -/
def scan (opening closing text : Text) : Option (List Segment) :=
  (markup? opening closing text).map fun m =>
    literal? m.before ++ splitRegion opening closing m.region ++ literal? m.after

end Bindmark.Segment
