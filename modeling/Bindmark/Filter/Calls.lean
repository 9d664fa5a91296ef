import Bindmark.Filter.Token

/-!
# Pipe filters as calls

An expression with filters after it becomes calls of the filters, each around
all that stands before it. Arguments stand after colons, and an
argument that is left out is `undefined`.
-/

namespace Bindmark.Filter

/-- Where a reader of a filter expression stands. -/
inductive Place where
  | base
  /-- After a pipe, where the name of a filter stands. -/
  | name
  /-- In the arguments of a filter, and whether a colon was the last token. -/
  | arguments (afterColon : Bool)
  deriving DecidableEq

/-- What has been written, and where the reader stands. -/
structure Progress where
  written : Text
  place : Place
  deriving DecidableEq

/-- The argument that is left out, if a colon was the last token. -/
def omitted (afterColon : Bool) : Text := if afterColon then lit "undefined" else []

/-- A filter called on what has been written, its arguments still open. -/
def openCall (lookup name written : Text) : Text :=
  lookup ++ lit "['" ++ name ++ lit "'](" ++ written

/-- What is written, and where the reader stands, after one more token. -/
def Progress.step (lookup : Text) (p : Progress) (t : Token) : Progress :=
  match p.place, t with
  | .base, .pipe => ⟨p.written, .name⟩
  | .base, t => ⟨p.written ++ t.text, .base⟩
  | .name, .pipe => ⟨p.written ++ lit ")", .name⟩
  | .name, t => ⟨openCall lookup t.text p.written, .arguments (t = .colon)⟩
  | .arguments afterColon, .pipe => ⟨p.written ++ omitted afterColon ++ lit ")", .name⟩
  | .arguments afterColon, .colon => ⟨p.written ++ omitted afterColon ++ lit ",", .arguments true⟩
  | .arguments _, t => ⟨p.written ++ t.text, .arguments false⟩

/-- The calls of a list of tokens: the first token begins the expression
    whatever it is, and a pipe after the last one closes the last call. -/
def callsOfTokens (lookup : Text) : List Token → Text
  | [] => []
  | first :: rest =>
    ((rest ++ [Token.pipe]).foldl (Progress.step lookup) ⟨first.text, .base⟩).written

/-- An expression with its filters as calls on the table `lookup`.
    An expression without pipes, or of one token, stays as it is. -/
def calls (lookup expression : Text) : Text :=
  if expression.contains '|' then
    match tokens expression with
    | [] => expression
    | [_] => expression
    | ts => callsOfTokens lookup ts
  else expression

/-- The filter table of the runtime. -/
def standardLookup : Text := lit "filters"

end Bindmark.Filter
