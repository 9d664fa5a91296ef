import Bindmark.Html.Reference
import Bindmark.Text.Blank
import Bindmark.Text.Lower

/-!
# Tokens of a source

A source is read as tags, comments, document types and text. The content of
scripts and styles is text up to their end tag.
-/

namespace Bindmark.Html

inductive Token where
  | startTag (tag : Text) (attributes : List (Text × Text)) (selfClosing : Bool)
  | endTag (tag : Text)
  | comment (text : Text)
  | doctype (text : Text)
  | text (text : Text)
  deriving DecidableEq

/-- The elements whose content is text alone. -/
def rawElements : List Text := [lit "script", lit "style"]

/-! ## Tags -/

/-- The text before the first occurrence of `p`, and the text after it. A text
    without `p` has nothing after it. -/
def cutAt (p t : Text) : Text × Text :=
  match Text.indexOf? p t with
  | some i => (t.take i, t.drop (i + p.length))
  | none => (t, [])

/-- The value of an attribute after its equals sign, and what follows it. -/
def readValue : Text → Text × Text
  | '"' :: rest => cutAt ['"'] rest
  | '\'' :: rest => cutAt ['\''] rest
  | t => (t.takeWhile fun c => !(c == '>' || Text.isBlank c),
      t.dropWhile fun c => !(c == '>' || Text.isBlank c))

/-- A text without the blanks and slashes between attributes; a slash that
    closes the tag stays. -/
def skipBetween : Text → Text
  | [] => []
  | '/' :: '>' :: rest => '/' :: '>' :: rest
  | c :: rest => if c = '/' ∨ Text.isBlank c then skipBetween rest else c :: rest

/-- The name of the attribute that a text begins with. -/
def attributeName : Text → Text
  | [] => []
  | c :: rest => c :: rest.takeWhile fun d => !(d == '/' || d == '=' || d == '>' || Text.isBlank d)

/-- An attribute and what follows it. One without an equals sign has an empty
    value. -/
def readAttribute (t : Text) : (Text × Text) × Text :=
  let name := attributeName t
  let rest := t.drop name.length
  match rest.dropWhile Text.isBlank with
  | '=' :: more =>
    let (value, rest) := readValue ((more.dropWhile (· == '=')).dropWhile Text.isBlank)
    ((name.lower, resolve attributeCharacter value), rest)
  | _ => ((name.lower, []), rest)

/-- The rest of a start tag: its attributes, whether it is closed by a slash,
    and what follows it. -/
def readAttributes (t : Text) : List (Text × Text) × Bool × Text :=
  match skipBetween t with
  | [] => ([], false, [])
  | '>' :: rest => ([], false, rest)
  | '/' :: '>' :: rest => ([], true, rest)
  | t' =>
    let (first, rest) := readAttribute t'
    if rest.length < t.length then
      let (attributes, closed, rest) := readAttributes rest
      (first :: attributes, closed, rest)
    else ([first], false, [])
termination_by t.length

/-- The characters that end the name of a tag. -/
def tagEnds : List Char := ['\t', '\n', '\r', '\x0c', ' ', '/', '>', '\x00']

/-- Whether a character belongs to the name of a tag. -/
def isTagPart (c : Char) : Bool := !tagEnds.contains c

/-- Whether a character belongs to a name that may stand between blanks in an
    end tag. -/
def isPlainTagPart (c : Char) : Bool := c.isAlphanum || ['-', '.', ':', '_'].contains c

/-- The name in an end tag, whose inside is `t`. A plain name may stand between
    blanks of all kinds. -/
def endTagName (t : Text) : Text :=
  let name := Text.strip t
  if name.all isPlainTagPart then name else t.takeWhile isTagPart

/-! ## Comments and raw text -/

/-- What follows the end of a comment, if a text begins with one: two hyphens,
    blanks and a bracket. -/
def afterCommentEnd? : Text → Option Text
  | '-' :: '-' :: rest =>
    match rest.dropWhile Text.isBlank with
    | '>' :: after => some after
    | _ => none
  | _ => none

/-- The text of a comment up to its end, and what follows it. -/
def readComment : Text → Text × Text
  | [] => ([], [])
  | c :: rest =>
    match afterCommentEnd? (c :: rest) with
    | some after => ([], after)
    | none =>
      let (body, after) := readComment rest
      (c :: body, after)

/-- Whether a text begins with the end tag of an element. Its name may stand
    between blanks, in any ASCII case. -/
def beginsWithEnd (tag : Text) : Text → Bool
  | '<' :: '/' :: rest =>
    let name := rest.dropWhile Text.isBlank
    (name.take tag.length).map Char.toLower == tag &&
      ((name.drop tag.length).dropWhile Text.isBlank).head? == some '>'
  | _ => false

/-- The text up to the end tag of a raw element, and what follows it. -/
def readRaw (tag : Text) : Text → Text × Text
  | [] => ([], [])
  | c :: rest =>
    if beginsWithEnd tag (c :: rest) then ([], c :: rest)
    else
      let (body, after) := readRaw tag rest
      (c :: body, after)

/-! ## Tokens -/

/-- The token that begins with `<`, and what follows it. -/
def readMarkup (t : Text) : Token × Text :=
  match t with
  | '!' :: '-' :: '-' :: rest =>
    let (body, rest) := readComment rest
    (.comment body, rest)
  | '!' :: rest =>
    let (body, rest) := cutAt ['>'] rest
    (.doctype (body.drop (lit "DOCTYPE ").length), rest)
  | '/' :: rest =>
    let (body, rest) := cutAt ['>'] rest
    (.endTag (Text.lower (endTagName body)), rest)
  | c :: _ =>
    if c.isAlpha then
      let name := t.takeWhile isTagPart
      let (attributes, closed, rest) := readAttributes (t.drop name.length)
      (.startTag (Text.lower name) attributes closed, rest)
    else (.text ['<'], t)
  | [] => (.text ['<'], [])

/-- The token that a character and the text after it begin with, and what
    follows it. -/
def readToken (c : Char) (rest : Text) : Token × Text :=
  if c = '<' then readMarkup rest
  else (.text (resolve (fun n => [characterOf n]) (c :: rest.takeWhile (· != '<'))),
    rest.dropWhile (· != '<'))

/-- What follows a token, and the text that comes first if the token begins a
    raw element. -/
def afterToken (token : Token) (rest : Text) : List Token × Text :=
  match token with
  | .startTag tag _ false =>
    if rawElements.contains tag then
      let (body, after) := readRaw tag rest
      (if body.isEmpty then [] else [.text body], after)
    else ([], rest)
  | _ => ([], rest)

def tokens : Text → List Token
  | [] => []
  | c :: rest =>
    let (token, after) := readToken c rest
    let (raw, after) := afterToken token after
    if after.length < (c :: rest).length then token :: raw ++ tokens after else token :: raw
termination_by t => t.length
decreasing_by assumption

end Bindmark.Html
