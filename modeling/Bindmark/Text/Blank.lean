import Bindmark.Text.Basic

/-!
# Blank characters

The characters that count as white space wherever a text is trimmed or taken
apart, and trimming.
-/

namespace Bindmark.Text

/-- The blank characters: the ASCII spaces and separators, and the Unicode
    space and line separators. -/
def blanks : List Char :=
  ['\t', '\n', '\x0b', '\x0c', '\r', '\x1c', '\x1d', '\x1e', '\x1f', ' ', '\u0085', '\u00a0',
   '\u1680', '\u2000', '\u2001', '\u2002', '\u2003', '\u2004', '\u2005', '\u2006', '\u2007',
   '\u2008', '\u2009', '\u200a', '\u2028', '\u2029', '\u202f', '\u205f', '\u3000']

def isBlank (c : Char) : Bool := blanks.contains c

def allBlank (t : Text) : Bool := t.all isBlank

def stripStart (t : Text) : Text := t.dropWhile isBlank

def stripEnd (t : Text) : Text := (t.reverse.dropWhile isBlank).reverse

def strip (t : Text) : Text := stripEnd (stripStart t)

end Bindmark.Text
