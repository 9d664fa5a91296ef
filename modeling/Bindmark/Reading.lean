import Bindmark.Text.Basic

/-!
# Reading expressions

How far inside quotes and brackets a reader of expression text is. A
backslash inside quotes escapes the next character, brackets of any kind
nest, and a stray closing bracket does not count.
-/

namespace Bindmark

/-- Where a reader of expression text stands. -/
inductive Reading where
  /-- Outside quotes, within `depth` open brackets. -/
  | code (depth : Nat)
  /-- Within the quotes `mark`, and whether the next character is escaped. -/
  | quoted (depth : Nat) (mark : Char) (escaped : Bool)
  deriving DecidableEq

namespace Reading

/-- The characters that open and close quoted text. -/
def quotes : List Char := ['"', '\'', '\x60']

def openers : List Char := ['(', '[', '\x7b']

def closers : List Char := [')', ']', '\x7d']

/-- Outside quotes and brackets. -/
abbrev top : Reading := .code 0

def step : Reading → Char → Reading
  | .quoted depth mark true, _ => .quoted depth mark false
  | .quoted depth mark false, c =>
    if c = '\\' then .quoted depth mark true
    else if c = mark then .code depth
    else .quoted depth mark false
  | .code depth, c =>
    if c ∈ quotes then .quoted depth c false
    else if c ∈ openers then .code (depth + 1)
    else if c ∈ closers then .code (depth - 1)
    else .code depth

def read (r : Reading) (t : Text) : Reading := t.foldl step r

/-- A text is closed when a reader that begins outside quotes and brackets
    ends there. -/
def Closed (t : Text) : Prop := top.read t = top

instance (t : Text) : Decidable (Closed t) := inferInstanceAs (Decidable (_ = _))

/-- The text before and after the first separator outside quotes and brackets. -/
def cutAt? (separator : Char) : Reading → Text → Option (Text × Text)
  | _, [] => none
  | r, c :: rest =>
    if r = top ∧ c = separator then some ([], rest)
    else (cutAt? separator (r.step c) rest).map fun (before, after) => (c :: before, after)

/-- The parts of a text between the separators outside quotes and brackets. -/
def partsAt (separator : Char) : Reading → Text → List Text
  | _, [] => [[]]
  | r, c :: rest =>
    if r = top ∧ c = separator then [] :: partsAt separator top rest
    else
      match partsAt separator (r.step c) rest with
      | [] => [[c]]
      | first :: others => (c :: first) :: others

end Reading
end Bindmark
