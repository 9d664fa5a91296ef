import Bindmark.Datum.Basic

/-!
# Faults

Everything that can go wrong, by its cause, and the message of each cause.
-/

namespace Bindmark

/-- How a function of a client gives up: the kind of its error, and its message. -/
structure Failure where
  kind : Text
  message : Text
  deriving DecidableEq

/-- Why work was given up. -/
inductive Fault where
  /-- A directive key is empty. -/
  | emptyKey
  /-- A registry is asked for with an empty divider. -/
  | emptyDivider
  /-- A value is given as a preprocessor that is no function. -/
  | preprocessorNotCallable (given : Datum)
  /-- A value is given as a node preprocessor that is no function. -/
  | nodePreprocessorNotCallable (given : Datum)
  /-- A value is called that is no function. -/
  | notCallable (given : Datum)
  /-- A pipe is looked for in a value that holds nothing. -/
  | notContainer (given : Datum)
  /-- A pattern is looked for in a value that is no text. -/
  | notText (given : Datum)
  /-- A value does not have the part that is asked of it. -/
  | lacks (given : Datum) (part : Text)
  /-- A function of a client gives up. -/
  | raised (failure : Failure)
  /-- A node is replaced that is no longer part of a document. -/
  | notInDocument
  /-- Nodes are put before a node that has no parent. -/
  | noParent
  /-- The settings name no known reader of sources. -/
  | unknownReader (name : Text)
  /-- Directives add directives without end. -/
  | tooDeep

/-- The message of a fault. -/
def Fault.message : Fault → Text
  | .emptyKey => lit "Directive key must not be empty"
  | .emptyDivider => lit "unterminated character set at position 1"
  | .preprocessorNotCallable d => lit "Preprocessor must be callable, got " ++ d.kindName
  | .nodePreprocessorNotCallable d => lit "Node preprocessor must be callable, got " ++ d.kindName
  | .notCallable d => lit "'" ++ d.kindName ++ lit "' object is not callable"
  | .notContainer d => lit "argument of type '" ++ d.kindName ++ lit "' is not iterable"
  | .notText d => lit "expected string or bytes-like object, got '" ++ d.kindName ++ lit "'"
  | .lacks d part =>
    lit "'" ++ d.kindName ++ lit "' object has no attribute '" ++ part ++ lit "'"
  | .raised f => f.message
  | .notInDocument =>
    lit "Cannot replace one element with another when the element to be replaced is not part of a tree."
  | .noParent => lit "Element has no parent, so 'before' has no meaning."
  | .unknownReader name =>
    lit "Couldn't find a tree builder with the features you requested: " ++ name ++
      lit ". Do you need to install a parser library?"
  | .tooDeep => lit "maximum recursion depth exceeded"

end Bindmark
