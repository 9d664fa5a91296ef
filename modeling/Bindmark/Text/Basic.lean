/-!
# Texts

Texts are lists of characters. Here are literal texts, joining, replacing a
character, and the first and the last place where one text stands in another.
-/

namespace Bindmark

/-- A text, character by character. -/
abbrev Text := List Char

abbrev lit (s : String) : Text := s.toList

namespace Text

/-! ## Joining and replacing -/

/-- Texts with a separator between each two of them. -/
def join (separator : Text) : List Text → Text
  | [] => []
  | [t] => t
  | t :: rest => t ++ separator ++ join separator rest

/-- A text with another text in the place of every occurrence of a character. -/
def replaceChar (c : Char) (replacement t : Text) : Text :=
  t.flatMap fun d => if d = c then replacement else [d]

/-- A natural number in decimal digits. -/
def ofNat (n : Nat) : Text := (toString n).toList

/-! ## Order -/

/-- Whether a text comes before another one, or is the same: the first
    character in which they differ decides, and a text comes before what it
    begins. -/
def atMost : Text → Text → Bool
  | [], _ => true
  | _ :: _, [] => false
  | c :: s, d :: t => c.toNat < d.toNat || (c == d && atMost s t)

/-! ## Occurrences -/

/-- The first position at which `p` stands in a text. -/
def indexOf? (p : Text) : Text → Option Nat
  | [] => if p.isEmpty then some 0 else none
  | c :: rest => if p.isPrefixOf (c :: rest) then some 0 else (indexOf? p rest).map (· + 1)

/-- The last position at which `p` stands in a text. -/
def lastIndexOf? (p : Text) : Text → Option Nat
  | [] => if p.isEmpty then some 0 else none
  | c :: rest =>
    match lastIndexOf? p rest with
    | some i => some (i + 1)
    | none => if p.isPrefixOf (c :: rest) then some 0 else none

/-- The rest of a text that begins with `p`. -/
def dropLeading? : (p t : Text) → Option Text
  | [], t => some t
  | _ :: _, [] => none
  | c :: p, d :: t => if c = d then dropLeading? p t else none

end Text
end Bindmark
