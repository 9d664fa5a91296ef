import Bindmark.Text.Basic

/-!
# The log

What is logged while a document is compiled. Every event has a level, and a
reader of the log sees those up to its verbosity.
-/

namespace Bindmark

/-- Something worth a line in the log. -/
inductive Event where
  | started
  | compiled (nodes replaced directives : Nat)
  /-- A handler was made for a key from the handler of its namespace. -/
  | synthesized (key ns : Text)
  | removed (key : Text)
  /-- A directive stands in a comment marker that may not. -/
  | notAllowed (key : Text)
  | textReplaced (count : Nat)
  | attributeMoved (name tag key : Text)
  deriving DecidableEq

namespace Event

/-- The verbosity from which on an event is seen: 1 is normal, 2 tells more
    and 3 tells all. -/
def level : Event → Int
  | .started => 2
  | .compiled _ _ _ => 2
  | .synthesized _ _ => 2
  | .removed _ => 3
  | .notAllowed _ => 1
  | .textReplaced _ => 3
  | .attributeMoved _ _ _ => 3

def message : Event → Text
  | .started => lit "Starting compilation..."
  | .compiled nodes replaced directives =>
    lit "Compiled " ++ Text.ofNat nodes ++ lit " nodes, rewrote " ++ Text.ofNat replaced ++
      lit ", preprocessed " ++ Text.ofNat directives ++ lit " directive strings"
  | .synthesized key ns =>
    lit "Synthesized handler for '" ++ key ++ lit "' from namespace '" ++ ns ++ lit "'"
  | .removed key => lit "Directive '" ++ key ++ lit "' removed by its preprocessor"
  | .notAllowed key => lit "Directive '" ++ key ++ lit "' is not allowed in comment markers"
  | .textReplaced count => lit "Rewrote text node into " ++ Text.ofNat count ++ lit " nodes"
  | .attributeMoved name tag key =>
    lit "Moved attribute '" ++ name ++ lit "' of <" ++ tag ++ lit "> into '" ++ key ++ lit "'"

end Event

/-- Whose verbosity the log goes by. -/
inductive LogBinding where
  /-- Nothing is bound, and nothing is logged. -/
  | unbound
  /-- Something without a verbosity is bound, and nothing is logged. -/
  | silent
  | compiler
  deriving DecidableEq

def LogBinding.lines (binding : LogBinding) (verbosity : Int) (events : List Event) : List Text :=
  match binding with
  | .unbound => []
  | .silent => []
  | .compiler => (events.filter fun e => e.level ≤ verbosity).map Event.message

end Bindmark
