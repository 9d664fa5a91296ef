import Bindmark.Text.Blank
import Bindmark.Text.Word

/-!
# References as callbacks

A value that only refers to a function is wrapped in a function that calls
it, so that the call keeps its receiver. Such a value is an identifier, or
anything on one line that ends in a property or in an index.
-/

namespace Bindmark.Reference

/-- Whether a text is not empty and holds no line feed. -/
def isLine (t : Text) : Bool := !t.isEmpty && !t.contains '\n'

/-- Whether a text ends in a property: a dot, blanks and an identifier after
    some text on one line. -/
def endsInProperty (t : Text) : Bool :=
  match Text.lastIndexOf? ['.'] t with
  | none => false
  | some i => isLine (t.take i) && Text.isIdentifier (Text.stripStart (t.drop (i + 1)))

/-- Whether a text on one line ends in an index: a bracket that closes over
    some text, after some text. -/
def endsInIndex (t : Text) : Bool :=
  isLine t && t.getLast? == some ']' && ((t.drop 1).dropLast.dropLast).contains '['

/-- Whether a value refers to a function. -/
def isReference (t : Text) : Bool := Text.isIdentifier t || endsInProperty t || endsInIndex t

/-- A function that calls the function `t` refers to. -/
def wrapped (t : Text) : Text :=
  lit "function(_x,_y,_z)\x7breturn(" ++ t ++ lit ")(_x,_y,_z);\x7d"

def wrap (t : Text) : Text := if isReference t then wrapped t else t

end Bindmark.Reference
