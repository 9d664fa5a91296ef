import Bindmark.Compiler.Visit
import Bindmark.Registry.Configure

/-!
# The standard setup

The extensions that a compiler has unless it is made without them:
interpolation, objects split into their members, pipe filters and wrapped
callbacks.
-/

namespace Bindmark.Standard

/-! ## Stages for nodes -/

/-- A stage for nodes is added behind the others. -/
def addNodeStage (stage : NodeStage) : Work Unit :=
  modify fun s => { s with nodeStages := some (Pipeline.chain s.nodeStages (.stage stage)) }

/-- A client's function for nodes is added; what is no function is refused. -/
def addNodePreprocessor : Except Datum NodeClient → Work Unit
  | .ok c => addNodeStage (.client c)
  | .error given => throw (.nodePreprocessorNotCallable given)

def interpolateTexts : Work Unit := addNodeStage .texts

/-- Attributes are interpolated, and objects under the attribute namespace are
    split into its members. -/
def interpolateAttributes (s : Settings) : Work Unit := do
  Registry.splitMembers s.attributeNamespace
  addNodeStage .attributes

/-! ## Directives -/

/-- The directives whose objects are split into their members. -/
def memberDirectives : List Text := [lit "attr", lit "css", lit "event", lit "style"]

/-- The directives whose values may hold pipe filters. -/
def filterDirectives : List Text := [lit "text", lit "html"]

/-- The directives whose values are callbacks. -/
def callbackDirectives : List Text := [lit "click", lit "submit", lit "optionsAfterRender"]

/-- The properties of templates that are callbacks. -/
def templateCallbacks : List Text := [lit "beforeRemove", lit "afterAdd", lit "afterRender"]

def addFilters (key : Text) : Work Unit := discard (Registry.addPreprocessor key .filters)

def addReferences (key : Text) : Work Unit := discard (Registry.addPreprocessor key .references)

def addTemplateCallback (property : Text) : Work Unit :=
  discard (Registry.addPropertyPreprocessor (lit "template") property .references)

/-- The standard setup. The value attribute of an element comes before
    `checked`, which reads it. -/
def install (s : Settings) : Work Unit := do
  interpolateTexts
  interpolateAttributes s
  (memberDirectives.filter (· != s.attributeNamespace)).forM Registry.splitMembers
  let r ← Work.registry
  Registry.addAfter (lit "checked") (s.attributeNamespace ++ r.divider ++ lit "value")
  filterDirectives.forM addFilters
  Registry.addMemberPreprocessor s.attributeNamespace .filters
  callbackDirectives.forM addReferences
  Registry.addMemberPreprocessor (lit "event") .references
  templateCallbacks.forM addTemplateCallback

end Bindmark.Standard
