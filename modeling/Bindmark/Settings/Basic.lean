import Bindmark.Text.Basic

/-!
# Settings

The tokens, names and switches that a compiler works with.
-/

namespace Bindmark

/-- The settings of a compiler. -/
structure Settings where
  /-- Opens an expression in text and attribute values. -/
  openToken : Text := lit "\x7b\x7b"
  /-- Closes an expression. -/
  closeToken : Text := lit "\x7d\x7d"
  /-- Elements whose text is never interpolated. -/
  rawTextContainers : List Text := [lit "script", lit "style", lit "textarea"]
  /-- The word that every comment marker begins with. -/
  markerWord : Text := lit "ko"
  /-- The attribute that holds the directive string of an element. -/
  directiveAttribute : Text := lit "data-bind"
  /-- The namespace of interpolated attributes that no directive is named for. -/
  attributeNamespace : Text := lit "attr"
  /-- Stands between a namespace and its member in a directive key. -/
  namespaceDivider : Text := lit "."
  /-- Attributes that are always directives of their own name. -/
  twoWayAttributes : List Text := [lit "checked", lit "value"]
  /-- The runtime function that reads a value. -/
  unwrapFunction : Text := lit "unwrap"
  /-- The runtime table of filters. -/
  filterLookup : Text := lit "filters"
  /-- Whether directive strings are preprocessed. -/
  preprocessDirectives : Bool := true
  /-- The name of the reader of sources. -/
  htmlReader : Text := lit "html.parser"
  /-- Whether everything is logged unless a verbosity is given. -/
  debugMode : Bool := false
  deriving DecidableEq

end Bindmark
