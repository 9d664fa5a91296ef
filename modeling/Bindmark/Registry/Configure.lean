import Bindmark.Registry.Lookup

/-!
# Configuring a registry

Registering handlers and adding to their preprocessing. What is given is
checked before anything is changed.
-/

namespace Bindmark.Registry

/-! ## Registering -/

/-- A handler is registered under a key that is not empty. -/
def register (key : Text) (h : Handler) (isVirtual : Bool) : Work Entry := do
  if key.isEmpty then throw .emptyKey
  let entry ← storeNew key h
  if isVirtual then Work.changeRegistry fun r => r.allowVirtual key
  return entry

/-- The entry of a key; an empty handler is registered when there is none. -/
def getOrCreate (key : Text) : Work Entry := do
  match ← lookup key with
  | some entry => return entry
  | none => register key {} false

def addCreator (c : Creator) : Work Unit :=
  Work.changeRegistry fun r => { r with creators := r.creators ++ [c] }

/-! ## Handlers -/

def changeHandler (entry : Entry) (f : Handler → Handler) : Work Entry := do
  Work.changeRegistry fun r => r.change entry.serial f
  let r ← Work.registry
  return (r.entryOf? entry.serial).getD entry

/-- A preprocessor must be a function. -/
def checkCallable : Preprocessor → Work Unit
  | .notCallable given => throw (.preprocessorNotCallable given)
  | _ => return ()

/-- A preprocessor is added to the handler of an entry. -/
def addPreprocessorTo (entry : Entry) (p : Preprocessor) : Work Entry := do
  checkCallable p
  changeHandler entry fun h => h.addPreprocessor p

/-- A preprocessor is added to the handler of a key. -/
def addPreprocessor (key : Text) (p : Preprocessor) : Work Entry := do
  checkCallable p
  changeHandler (← getOrCreate key) fun h => h.addPreprocessor p

/-- Objects under a key are split into one directive for each member. -/
def splitMembers (key : Text) : Work Unit := do
  let entry ← getOrCreate key
  discard (changeHandler entry fun h => h.addStage .members)

/-- A preprocessor is added for the members of a namespace, if there is such a
    handler. -/
def addMemberPreprocessor (ns : Text) (p : Preprocessor) : Work Unit := do
  match ← lookup ns with
  | none => return ()
  | some entry => discard (changeHandler entry fun h => h.addMemberPreprocessor p)

/-- A preprocessor is added for a property of objects under a key. -/
def addPropertyPreprocessor (key property : Text) (p : Preprocessor) : Work Entry := do
  checkCallable p
  changeHandler (← getOrCreate key) fun h => h.addPropertyPreprocessor property p

/-- A directive is to come before that of a key, unless it does already. -/
def addAfter (key earlier : Text) : Work Unit := do
  let entry ← getOrCreate key
  discard (changeHandler entry fun h =>
    if h.after.contains earlier then h else { h with after := h.after ++ [earlier] })

end Bindmark.Registry
