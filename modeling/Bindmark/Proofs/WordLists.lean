import Bindmark.Html.Tree
import Bindmark.Proofs.Tables
import Bindmark.Settings.Basic

/-!
# Lists of words

An attribute may have a list of words for its value, which no directive string
can be. No document that is read from a source has one.
-/

namespace Bindmark

variable {s : Settings}

/-! ## Elements without lists of words -/

/-- Attributes with no list of words where the directives stand. -/
def NoWordList (s : Settings) (attributes : Table AttributeValue) : Prop :=
  ∀ words, attributes.get? s.directiveAttribute = some (.words words) → words = []

mutual
/-- No element of a node has a list of words where its directives stand. -/
def NoWords (s : Settings) : Node → Prop
  | .element _ attributes children => NoWordList s attributes ∧ NoWordsIn s children
  | .leaf _ _ => True

/-- No element of a list has a list of words where its directives stand. -/
def NoWordsIn (s : Settings) : List Node → Prop
  | [] => True
  | node :: rest => NoWords s node ∧ NoWordsIn s rest
end

theorem noWordsIn_append {before after : List Node} :
    NoWordsIn s (before ++ after) ↔ NoWordsIn s before ∧ NoWordsIn s after := by
  induction before with
  | nil => simp [NoWordsIn]
  | cons node rest ih => rw [List.cons_append, NoWordsIn, NoWordsIn, ih, and_assoc]

theorem noWordsIn_singleton {node : Node} : NoWordsIn s [node] ↔ NoWords s node := by
  rw [NoWordsIn, NoWordsIn, and_true]

theorem noWordList_ofList_text (s : Settings) (attributes : List (Text × Text)) :
    NoWordList s (Table.ofList (attributes.map fun (k, v) => (k, AttributeValue.text v))) := by
  intro words found
  rcases Table.mem_insertAll _ _ (Table.mem_of_get? found) with none_ | inside
  · cases none_
  · simp at inside

/-! ## Documents that are read -/

namespace Html

/-- An open element without lists of words. -/
def OpenElement.NoWords (s : Settings) (e : OpenElement) : Prop := NoWordList s e.attributes ∧ NoWordsIn s e.children

namespace OpenElement

variable {e : OpenElement} {more : List Node}

theorem NoWords.append (noWords : e.NoWords s) (also : NoWordsIn s more) :
    OpenElement.NoWords s { e with children := e.children ++ more } :=
  ⟨noWords.1, noWordsIn_append.mpr ⟨noWords.2, also⟩⟩

theorem NoWords.node (noWords : e.NoWords s) (also : NoWordsIn s more) :
    NoWordsIn s [.element e.tag e.attributes (e.children ++ more)] := by
  rw [noWordsIn_singleton, Bindmark.NoWords]
  exact ⟨noWords.1, noWordsIn_append.mpr ⟨noWords.2, also⟩⟩

end OpenElement

namespace Builder

variable {b : Builder}

/-- A document without lists of words so far. -/
structure NoWords (s : Settings) (b : Builder) : Prop where
  nodes : NoWordsIn s b.nodes
  opened : ∀ e ∈ b.openElements, OpenElement.NoWords s e

theorem NoWords.addNode (noWords : b.NoWords s) {node : Node} (also : Bindmark.NoWords s node) :
    NoWords s (b.addNode node) := by
  obtain ⟨nodes, opened⟩ := noWords
  have single := noWordsIn_singleton.mpr also
  unfold Builder.addNode
  split
  · exact ⟨noWordsIn_append.mpr ⟨nodes, single⟩, opened⟩
  · rename_i e outer isOpen
    rw [isOpen] at opened
    obtain ⟨inner, others⟩ := List.forall_mem_cons.mp opened
    exact ⟨nodes, List.forall_mem_cons.mpr ⟨inner.append single, others⟩⟩

theorem NoWords.flush (noWords : b.NoWords s) : NoWords s b.flush := by
  unfold Builder.flush
  split
  · exact noWords
  · have leaf : Bindmark.NoWords s (.leaf b.textKind (b.shrink b.pending)) := trivial
    have added := noWords.addNode leaf
    exact ⟨added.nodes, added.opened⟩

theorem noWords_closeTo (tag : Text) : ∀ {opened : List OpenElement} {inner : List Node},
    (∀ e ∈ opened, OpenElement.NoWords s e) → NoWordsIn s inner →
      (∀ e ∈ (closeTo tag opened inner).1, OpenElement.NoWords s e) ∧ NoWordsIn s (closeTo tag opened inner).2
  | [], inner, opened, noWords => ⟨opened, noWords⟩
  | e :: outer, inner, opened, noWords => by
    obtain ⟨here, others⟩ := List.forall_mem_cons.mp opened
    have node := here.node noWords
    unfold closeTo
    dsimp only
    split
    · cases outer with
      | nil => exact ⟨others, node⟩
      | cons next rest =>
        obtain ⟨outside, rest⟩ := List.forall_mem_cons.mp others
        exact ⟨List.forall_mem_cons.mpr ⟨outside.append node, rest⟩, trivial⟩
    · exact noWords_closeTo tag others node

theorem noWords_closeAll : ∀ {opened : List OpenElement} {inner : List Node},
    (∀ e ∈ opened, OpenElement.NoWords s e) → NoWordsIn s inner → NoWordsIn s (closeAll opened inner)
  | [], inner, _, noWords => noWords
  | e :: outer, inner, opened, noWords => by
    obtain ⟨here, others⟩ := List.forall_mem_cons.mp opened
    rw [closeAll]
    exact noWords_closeAll others (here.node noWords)

theorem NoWords.close (noWords : b.NoWords s) (tag : Text) : NoWords s (b.close tag) := by
  have flushed := noWords.flush
  unfold Builder.close
  dsimp only
  split
  · have none_ : NoWordsIn s [] := trivial
    obtain ⟨opened, outside⟩ := noWords_closeTo tag flushed.opened none_
    exact ⟨noWordsIn_append.mpr ⟨flushed.nodes, outside⟩, opened⟩
  · exact flushed

theorem NoWords.step (noWords : b.NoWords s) (token : Token) : NoWords s (b.step token) := by
  cases token with
  | startTag tag attributes selfClosing =>
    have flushed := noWords.flush
    have opened : NoWords s { b.flush with openElements :=
        ⟨tag, Table.ofList (attributes.map fun (k, v) => (k, AttributeValue.text v)), []⟩ :: b.flush.openElements } :=
      ⟨flushed.nodes, List.forall_mem_cons.mpr ⟨⟨noWordList_ofList_text s attributes, trivial⟩, flushed.opened⟩⟩
    change NoWords s (if _ then _ else _)
    split
    · exact opened.close tag
    · exact opened
  | endTag tag => exact noWords.close tag
  | comment t => exact noWords.flush.addNode trivial
  | doctype t => exact noWords.flush.addNode trivial
  | text t => exact ⟨noWords.nodes, noWords.opened⟩

end Builder

/-- No document that is read has lists of words. -/
theorem noWordsIn_read (s : Settings) (source : Text) : NoWordsIn s (read source) := by
  have steps (ts : List Token) {b : Builder} (noWords : b.NoWords s) : (ts.foldl Builder.step b).NoWords s := by
    induction ts generalizing b with
    | nil => exact noWords
    | cons token ts ih => exact ih (noWords.step token)
  have whole := (steps (tokens source) (b := {}) ⟨trivial, by simp⟩).flush
  exact noWordsIn_append.mpr ⟨whole.nodes, Builder.noWords_closeAll whole.opened trivial⟩

end Html
end Bindmark
