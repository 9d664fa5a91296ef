import Bindmark.Settings.Marker

/-!
# Blocks

What an expression in text stands for. `#` begins a block, with `/` at its
end the block is whole, `/` ends a block, and any other expression is output
as text or, in braces, as markup.
-/

namespace Bindmark

/-- What an expression in text stands for. -/
inductive Block where
  /-- The opening marker of a region. -/
  | begins (directives : Text)
  /-- The closing marker of a region. -/
  | ends
  /-- An empty region of its own. -/
  | whole (directives : Text)
  deriving DecidableEq

namespace Block

/-- Whether a character belongs to the name at the start of a block. -/
def isNamePart (c : Char) : Bool :=
  !(lit ",\"'\x7b\x7d()/:[]").contains c && !Text.isBlank c

/-- The directive string of a block. Where a name is followed by blanks and
    then by anything but a colon, a colon takes the place of the blanks, and
    what follows ends with its line. -/
def directives (body : Text) : Text :=
  let name := body.takeWhile isNamePart
  let blanks := (body.dropWhile isNamePart).takeWhile Text.isBlank
  let rest := (body.dropWhile isNamePart).dropWhile Text.isBlank
  if name.isEmpty || blanks.isEmpty || rest.isEmpty || rest.head? == some ':' then body
  else name ++ lit ":" ++ rest.takeWhile (· != '\n')

/-- The block of an expression without blanks around it. -/
def ofStripped (e : Text) : Block :=
  if e.head? = some '#' then
    if e.getLast? = some '/' then .whole (directives (e.drop 1).dropLast)
    else .begins (directives (e.drop 1))
  else if e.head? = some '/' then .ends
  else if e.head? = some '\x7b' ∧ e.getLast? = some '\x7d' ∧ 1 < e.length then
    .whole (lit "html:" ++ Text.strip (e.drop 1).dropLast)
  else .whole (lit "text:" ++ e)

def ofExpression (e : Text) : Block := ofStripped e.strip

/-- The directive string of a block; a closing marker has none. -/
def directives? : Block → Option Text
  | .begins d => some d
  | .ends => none
  | .whole d => some d

/-- Whether a closing marker belongs to a block. -/
def hasClose : Block → Bool
  | .begins _ => false
  | .ends => true
  | .whole _ => true

def markers (s : Settings) : Block → List Text
  | .begins d => [s.openMarker d]
  | .ends => [s.closeMarker]
  | .whole d => [s.openMarker d, s.closeMarker]

end Block
end Bindmark
