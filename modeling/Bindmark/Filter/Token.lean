import Bindmark.Text.Blank

/-!
# Tokens of filter expressions

A filter expression is read as quoted strings, the operator `||`, single
pipes and colons, and runs of other text without the blanks around them. A
quote that opens no complete string is passed over.
-/

namespace Bindmark.Filter

inductive Token where
  /-- A complete string with its quotes. -/
  | quoted (text : Text)
  /-- The operator `||`. -/
  | or
  | pipe
  | colon
  /-- Other text, without blanks around it. -/
  | run (text : Text)
  deriving DecidableEq

/-- A piece of a filter expression: a token, or what is passed over. -/
inductive Piece where
  | token (t : Token)
  | blank (text : Text)
  /-- A quote at which no complete string starts. -/
  | stray (mark : Char)
  deriving DecidableEq

def Token.text : Token → Text
  | .quoted t => t
  | .or => lit "||"
  | .pipe => lit "|"
  | .colon => lit ":"
  | .run t => t

def Piece.text : Piece → Text
  | .token t => t.text
  | .blank t => t
  | .stray mark => [mark]

/-- The token of a piece, if it is one. -/
def Piece.token? : Piece → Option Token
  | .token t => some t
  | _ => none

/-! ## Reading a piece -/

/-- The length of a string body up to and with its closing quote. A backslash
    escapes any character but a line feed. -/
def bodyLength? (mark : Char) : Text → Option Nat
  | [] => none
  | [c] => if c = mark then some 1 else none
  | c :: d :: rest =>
    if c = mark then some 1
    else if c = '\\' then if d = '\n' then none else (bodyLength? mark rest).map (· + 2)
    else (bodyLength? mark (d :: rest)).map (· + 1)

/-- Whether a character belongs to runs of other text. -/
def isPlain (c : Char) : Bool := c != '|' && c != ':' && c != '"' && c != '\''

/-- The piece that a character and the text after it begin with. -/
def firstPiece (c : Char) (rest : Text) : Piece :=
  if c = '"' ∨ c = '\'' then
    match bodyLength? c rest with
    | some n => .token (.quoted (c :: rest.take n))
    | none => .stray c
  else if c = '|' then if rest.head? = some '|' then .token .or else .token .pipe
  else if c = ':' then .token .colon
  else if Text.isBlank c then .blank (c :: rest.takeWhile Text.isBlank)
  else .token (.run (c :: Text.stripEnd (rest.takeWhile isPlain)))

def pieces : Text → List Piece
  | [] => []
  | c :: rest =>
    let piece := firstPiece c rest
    piece :: pieces (rest.drop (piece.text.length - 1))
termination_by t => t.length
decreasing_by rw [List.length_drop, List.length_cons]; omega

def tokens (t : Text) : List Token := (pieces t).filterMap Piece.token?

end Bindmark.Filter
