import Bindmark.Proofs.Numbered

/-!
# Compiling a document in place

The traversal that edits the document it runs over. The numbers of all nodes
are noted first. Then one node after the other is looked up in the document as
it has become by then, and is rewritten there: attributes are exchanged, a text
makes room for new nodes, a marker for its preprocessed one.
-/

namespace Bindmark

open Work Rewriting

namespace Numbered

/-- A document that is edited in place, and the number that the next new node
    gets. -/
structure Tree where
  items : List Item
  next : Nat

namespace Tree

/-- The node of a number, with the tag of its parent. -/
def find? (tree : Tree) (i : Nat) : Option (Text × Item) :=
  findIn? i Document.rootTag tree.items

/-- An element with other attributes. -/
def withAttributes (attributes : Table AttributeValue) : Item → Item
  | .element id tag _ children => .element id tag attributes children
  | .leaf id kind t => .leaf id kind t

/-- The element of a number gets other attributes. -/
def relabel (tree : Tree) (i : Nat) (attributes : Table AttributeValue) : Tree :=
  { tree with items := editIn i (fun item => [withAttributes attributes item]) tree.items }

/-- New nodes take the place of the one of a number. -/
def replace (tree : Tree) (i : Nat) (nodes : List Node) : Tree :=
  { items := editIn i (fun _ => numberAll tree.next nodes) tree.items
    next := tree.next + sizes nodes }

/-! ## The traversal -/

/-- The directive string of the node of a number is preprocessed. -/
def preprocessAt (s : Settings) (tree : Tree) (i : Nat) : Work Tree :=
  match tree.find? i with
  | none => return tree
  | some (_, .element _ _ attributes _) => do
    return tree.relabel i (← preprocessAttribute s attributes)
  | some (_, .leaf _ kind t) =>
    match kind, s.readMarker? t with
    | .comment, some directives => do return tree.replace i [← preprocessMarker s directives]
    | _, _ => return tree

/-- The directive strings of some nodes are preprocessed, if the settings say
    so. -/
def preprocess (s : Settings) (is : List Nat) (tree : Tree) : Work Tree :=
  if s.preprocessDirectives then is.foldlM (preprocessAt s) tree else return tree

/-- The node of a number is visited. -/
def visitAt (s : Settings) (tree : Tree) (i : Nat) : Work Tree :=
  match tree.find? i with
  | none => return tree
  | some (_, .element _ tag attributes _) => do
    countNode
    let moved ← Interpolation.moveAttributes s tag attributes.entries attributes
    preprocess s [i] (tree.relabel i moved)
  | some (parent, .leaf _ kind t) => do
    countNode
    match Interpolation.textNodes? s (some parent) (.leaf kind t) with
    | some nodes =>
      Work.log (.textReplaced nodes.length)
      countReplaced
      preprocess s ((numberAll tree.next nodes).map idOf) (tree.replace i nodes)
    | none => preprocess s [i] tree

/-- Nodes are visited one after the other. -/
def walk (s : Settings) (is : List Nat) (tree : Tree) : Work Tree := is.foldlM (visitAt s) tree

end Tree

/-- A document is compiled in place: its nodes are noted, then visited. -/
def compile (s : Settings) (document : List Node) : Work (List Node) := do
  let items := numberAll 0 document
  let tree ← Tree.walk s (idsIn items) { items, next := sizes document }
  return nodes tree.items

/-! ## Following the rewriting -/

/-- Work that edits one place of a document follows work that gives the nodes
    for it. The new nodes have numbers that stood there before or that are new. -/
def Follows (edited : Work Tree) (rewritten : Work (List Node)) (around : List Item → List Item)
    (known : List Nat) (next : Nat) : Prop :=
  ∀ st, match rewritten st with
    | .error e st' => edited st = .error e st'
    | .ok ns st' => ∃ items next', edited st = .ok ⟨around items, next'⟩ st' ∧ nodes items = ns ∧
        next ≤ next' ∧ ∀ i ∈ idsIn items, i ∈ known ∨ next ≤ i ∧ i < next'

variable {around : List Item → List Item} {parent : Text} {taken known : List Nat}

theorem Follows.pure (around : List Item → List Item) (known : List Nat) (items : List Item)
    {next next' : Nat} (later : next ≤ next')
    (known_or_new : ∀ i ∈ idsIn items, i ∈ known ∨ next ≤ i ∧ i < next') :
    Follows (pure ⟨around items, next'⟩) (pure (nodes items)) around known next :=
  fun _ => ⟨items, next', rfl, rfl, later, known_or_new⟩

theorem Follows.bind {α : Type} {w : Work α} {edited : α → Work Tree} {rewritten : α → Work (List Node)}
    {next : Nat} (each : ∀ a, Follows (edited a) (rewritten a) around known next) :
    Follows (w >>= edited) (w >>= rewritten) around known next := by
  intro st
  rw [bind_apply, bind_apply]
  cases w st with
  | ok a st' => exact each a st'
  | error e st' => rfl

/-- The place of two lists of nodes is edited from the first to the second. -/
theorem Follows.append (rest : List Item) {first : Work Tree} {second : Tree → Work Tree}
    {one two : Work (List Node)} {known' : List Nat} {next : Nat}
    (before : Follows first one (fun items => around (items ++ rest)) known next)
    (after : ∀ done next', next ≤ next' → (∀ i ∈ idsIn done, i ∈ known ∨ next ≤ i ∧ i < next') →
      Follows (second ⟨around (done ++ rest), next'⟩) two (fun items => around (done ++ items)) known' next') :
    Follows (first >>= second) (do return (← one) ++ (← two)) around (known ++ known') next := by
  intro st
  have ran := before st
  rw [bind_apply, bind_apply]
  cases given : one st with
  | error e st' =>
    rw [given] at ran
    simp only [ran]
  | ok ns st' =>
    rw [given] at ran
    obtain ⟨done, next', ran, same, later, old⟩ := ran
    have ran' := after done next' later old st'
    simp only [ran]
    rw [bind_apply]
    cases given' : two st' with
    | error e st'' =>
      rw [given'] at ran'
      exact ran'
    | ok ns' st'' =>
      rw [given'] at ran'
      obtain ⟨items, next'', ran', same', later', old'⟩ := ran'
      refine ⟨done ++ items, next'', ran', ?_, Nat.le_trans later later', ?_⟩
      · rw [nodes_append, same, same']
      · intro i inside
        rw [idsIn_append, List.mem_append] at inside
        rw [List.mem_append]
        rcases inside with inside | inside
        · rcases old i inside with stood | new
          · exact .inl (.inl stood)
          · exact .inr ⟨new.1, Nat.lt_of_lt_of_le new.2 later'⟩
        · rcases old' i inside with stood | new
          · exact .inl (.inr stood)
          · exact .inr ⟨Nat.le_trans later new.1, new.2⟩

/-! ## One node -/

namespace Frame
variable {i n : Nat}

theorem find_element (frame : Frame around parent taken) (free : i ∉ taken) (tag : Text)
    (attributes : Table AttributeValue) (children : List Item) :
    Tree.find? ⟨around [.element i tag attributes children], n⟩ i =
      some (parent, .element i tag attributes children) := by
  rw [Tree.find?, frame.find _ free, findIn?, find?, if_pos rfl, Option.some_or]

theorem find_leaf (frame : Frame around parent taken) (free : i ∉ taken) (kind : LeafKind) (t : Text) :
    Tree.find? ⟨around [.leaf i kind t], n⟩ i = some (parent, .leaf i kind t) := by
  rw [Tree.find?, frame.find _ free, findIn?, find?, if_pos rfl, Option.some_or]

theorem relabel_element (frame : Frame around parent taken) (free : i ∉ taken) (tag : Text)
    (attributes attributes' : Table AttributeValue) (children : List Item) :
    Tree.relabel ⟨around [.element i tag attributes children], n⟩ i attributes' =
      ⟨around [.element i tag attributes' children], n⟩ := by
  rw [Tree.relabel, frame.edit _ _ free, editIn, Numbered.edit, if_pos rfl, editIn, List.append_nil,
    Tree.withAttributes]

theorem replace_leaf (frame : Frame around parent taken) (free : i ∉ taken) (kind : LeafKind) (t : Text)
    (ns : List Node) :
    Tree.replace ⟨around [.leaf i kind t], n⟩ i ns = ⟨around (numberAll n ns), n + sizes ns⟩ := by
  rw [Tree.replace, frame.edit _ _ free, editIn, Numbered.edit, if_pos rfl, editIn, List.append_nil]

/-- An element has its attributes rewritten. -/
theorem visitAt_element (frame : Frame around parent taken) (free : i ∉ taken) (s : Settings) (tag : Text)
    (attributes : Table AttributeValue) (children : List Item) :
    Tree.visitAt s ⟨around [.element i tag attributes children], n⟩ i = do
      countNode
      let rewritten ← rewriteAttributes s tag attributes
      return ⟨around [.element i tag rewritten children], n⟩ := by
  rw [Tree.visitAt, frame.find_element free]
  simp only [rewriteAttributes, bind_assoc, Tree.preprocess, List.foldlM_cons, List.foldlM_nil, bind_pure,
    frame.relabel_element free]
  refine bind_congr fun _ => bind_congr fun moved => ?_
  cases s.preprocessDirectives
  · simp only [Bool.false_eq_true, if_false, pure_bind]
  · simp only [if_true, Tree.preprocessAt, frame.find_element free, frame.relabel_element free]

/-- A marker is preprocessed where it stands; other leaves stay. -/
theorem preprocess_leaf (frame : Frame around parent taken) (free : i ∉ taken) (s : Settings)
    (kind : LeafKind) (t : Text) :
    Follows (Tree.preprocess s [i] ⟨around [.leaf i kind t], n⟩)
      (do return [← rewriteMarker s (.leaf kind t)]) around [i] n := by
  have stays : Follows (pure ⟨around [.leaf i kind t], n⟩) (pure [.leaf kind t]) around [i] n :=
    Follows.pure around [i] [.leaf i kind t] (Nat.le_refl n) fun j stands => .inl (by simpa [idsIn, ids] using stands)
  unfold Tree.preprocess rewriteMarker
  cases s.preprocessDirectives
  · simpa only [Bool.false_eq_true, if_false, pure_bind] using stays
  · simp only [if_true, List.foldlM_cons, List.foldlM_nil, bind_pure]
    rw [Tree.preprocessAt, frame.find_leaf free]
    cases kind with
    | comment =>
      cases read : s.readMarker? t with
      | none => simpa only [read, preprocessLeaf, pure_bind] using stays
      | some directives =>
        simp only [read, preprocessLeaf, frame.replace_leaf free]
        refine Follows.bind fun marker => ?_
        have new := Follows.pure around [i] (numberAll n [marker])
          (Nat.le_add_right n (sizes [marker])) fun j stands => .inr (by
            rw [idsIn_numberAll, List.mem_range'_1] at stands
            exact stands)
        simpa only [nodes_numberAll] using new
    | _ => simpa only [preprocessLeaf, pure_bind] using stays

end Frame

/-! ## The whole document -/

theorem Tree.preprocess_append (s : Settings) (is js : List Nat) (tree : Tree) :
    Tree.preprocess s (is ++ js) tree = Tree.preprocess s is tree >>= Tree.preprocess s js := by
  unfold Tree.preprocess
  cases s.preprocessDirectives
  · rfl
  · simp only [if_true, List.foldlM_append]

theorem Tree.walk_append (s : Settings) (is js : List Nat) (tree : Tree) :
    Tree.walk s (is ++ js) tree = Tree.walk s is tree >>= Tree.walk s js :=
  List.foldlM_append

/-- Numbers that stand in a place: none stands twice or around it, and those
    that are given next are new. -/
structure Fits (taken numbers : List Nat) (next : Nat) : Prop where
  nodup : numbers.Nodup
  free : ∀ i ∈ numbers, i ∉ taken
  taken_lt : ∀ i ∈ taken, i < next
  numbers_lt : ∀ i ∈ numbers, i < next

namespace Fits
variable {numbers numbers' : List Nat} {next next' : Nat}

/-- The numbers of the first of two places. -/
theorem left (fits : Fits taken (numbers ++ numbers') next) : Fits (taken ++ numbers') numbers next where
  nodup := (List.nodup_append.1 fits.nodup).1
  free := by
    intro i inside
    rw [List.mem_append, not_or]
    refine ⟨fits.free i (List.mem_append_left _ inside), fun twice => ?_⟩
    exact (List.nodup_append.1 fits.nodup).2.2 i inside i twice rfl
  taken_lt := by
    intro i inside
    rcases List.mem_append.1 inside with around | beside
    · exact fits.taken_lt i around
    · exact fits.numbers_lt i (List.mem_append_right _ beside)
  numbers_lt i inside := fits.numbers_lt i (List.mem_append_left _ inside)

/-- The numbers of the second of two places, when the first has been edited. -/
theorem right (fits : Fits taken (numbers ++ numbers') next) {done : List Nat} (later : next ≤ next')
    (known_or_new : ∀ i ∈ done, i ∈ numbers ∨ next ≤ i ∧ i < next') : Fits (taken ++ done) numbers' next' where
  nodup := (List.nodup_append.1 fits.nodup).2.1
  free := by
    intro i inside
    rw [List.mem_append, not_or]
    refine ⟨fits.free i (List.mem_append_right _ inside), fun twice => ?_⟩
    rcases known_or_new i twice with stood | new
    · exact (List.nodup_append.1 fits.nodup).2.2 i stood i inside rfl
    · exact Nat.not_lt_of_le new.1 (fits.numbers_lt i (List.mem_append_right _ inside))
  taken_lt := by
    intro i inside
    rcases List.mem_append.1 inside with around | before
    · exact Nat.lt_of_lt_of_le (fits.taken_lt i around) later
    · rcases known_or_new i before with stood | new
      · exact Nat.lt_of_lt_of_le (fits.numbers_lt i (List.mem_append_left _ stood)) later
      · exact new.2
  numbers_lt i inside := Nat.lt_of_lt_of_le (fits.numbers_lt i (List.mem_append_right _ inside)) later

/-- The numbers below an element. -/
theorem below {i : Nat} (fits : Fits taken (i :: numbers) next) : Fits (i :: taken) numbers next where
  nodup := (List.nodup_cons.1 fits.nodup).2
  free := by
    intro j inside
    rw [List.mem_cons, not_or]
    refine ⟨?_, fits.free j (List.mem_cons_of_mem _ inside)⟩
    rintro rfl
    exact (List.nodup_cons.1 fits.nodup).1 inside
  taken_lt := by
    intro j inside
    rcases List.mem_cons.1 inside with rfl | around
    · exact fits.numbers_lt j (List.mem_cons_self ..)
    · exact fits.taken_lt j around
  numbers_lt j inside := fits.numbers_lt j (List.mem_cons_of_mem _ inside)

/-- Numbers that are given to new nodes. -/
theorem new (fits : Fits taken numbers next) (ns : List Node) :
    Fits taken (idsIn (numberAll next ns)) (next + sizes ns) where
  nodup := by
    rw [idsIn_numberAll]
    exact List.nodup_range'
  free := by
    intro i inside around
    rw [idsIn_numberAll, List.mem_range'_1] at inside
    exact Nat.not_lt_of_le inside.1 (fits.taken_lt i around)
  taken_lt i around := Nat.lt_add_right _ (fits.taken_lt i around)
  numbers_lt := by
    intro i inside
    rw [idsIn_numberAll, List.mem_range'_1] at inside
    exact inside.2

end Fits

/-- Editing a list of nodes from the first to the last, where `step` edits one
    of them and `edit` those behind it. -/
theorem Follows.cons (edit : List Nat → Tree → Work Tree) {item : Item} {rest : List Item}
    {one two : Work (List Node)} {next : Nat} (frame : Frame around parent taken)
    (fits : Fits taken (idsIn (item :: rest)) next)
    (append : ∀ is js tree, edit (is ++ js) tree = edit is tree >>= edit js)
    (first : ∀ {around taken}, Frame around parent taken → Fits taken (ids item) next →
      Follows (edit (ids item) ⟨around [item], next⟩) one around (ids item) next)
    (others : ∀ {around taken next'}, Frame around parent taken → Fits taken (idsIn rest) next' →
      Follows (edit (idsIn rest) ⟨around rest, next'⟩) two around (idsIn rest) next') :
    Follows (edit (idsIn (item :: rest)) ⟨around (item :: rest), next⟩) (do return (← one) ++ (← two))
      around (idsIn (item :: rest)) next := by
  rw [idsIn] at fits ⊢
  rw [append]
  refine Follows.append rest ?_ fun done next' later known_or_new => ?_
  · have before := frame.between [] rest
    exact first before (by simpa only [idsIn, List.nil_append] using fits.left)
  · have after := frame.between done []
    simp only [idsIn, List.append_nil] at after
    exact others after (fits.right later known_or_new)

/-- Numbers that stood in a place may be new where it is part of another one. -/
theorem Follows.weaken {edited : Work Tree} {rewritten : Work (List Node)} {known' : List Nat} {next next' : Nat}
    (later : next ≤ next') (known_or_new : ∀ i ∈ known', i ∈ known ∨ next ≤ i ∧ i < next')
    (follows : Follows edited rewritten around known' next') : Follows edited rewritten around known next := by
  intro st
  have ran := follows st
  cases given : rewritten st with
  | error e st' =>
    rw [given] at ran
    exact ran
  | ok ns st' =>
    rw [given] at ran
    obtain ⟨items, next'', ran, same, later', old⟩ := ran
    refine ⟨items, next'', ran, same, Nat.le_trans later later', fun i inside => ?_⟩
    rcases old i inside with stood | new
    · rcases known_or_new i stood with stood | new
      · exact .inl stood
      · exact .inr ⟨new.1, Nat.lt_of_lt_of_le new.2 later'⟩
    · exact .inr ⟨Nat.le_trans later new.1, new.2⟩

/-- Nodes without any below them. -/
def Leaves (items : List Item) : Prop := ∀ item ∈ items, ∃ i kind t, item = .leaf i kind t

theorem leaves_numberAll (n : Nat) : ∀ {ns : List Node}, (∀ a ∈ ns, ∃ kind t, a = .leaf kind t) →
    Leaves (numberAll n ns)
  | [], _ => by
    rw [numberAll]
    exact fun item inside => absurd inside List.not_mem_nil
  | a :: rest, leaves => by
    obtain ⟨kind, t, rfl⟩ := leaves a (List.mem_cons_self ..)
    have others := leaves_numberAll (n + size (.leaf kind t)) fun b inside =>
      leaves b (List.mem_cons_of_mem _ inside)
    intro item inside
    rw [numberAll, number, List.mem_cons] at inside
    rcases inside with rfl | inside
    · exact ⟨n, kind, t, rfl⟩
    · exact others item inside

theorem Leaves.map_idOf : ∀ {items : List Item}, Leaves items → items.map idOf = idsIn items
  | [], _ => by rw [idsIn, List.map_nil]
  | item :: rest, leaves => by
    obtain ⟨i, kind, t, rfl⟩ := leaves item (List.mem_cons_self ..)
    have others := Leaves.map_idOf fun b inside => leaves b (List.mem_cons_of_mem _ inside)
    rw [List.map_cons, others, idsIn, ids, idOf, List.singleton_append]

/-- Every opening marker among new nodes is preprocessed where it stands. -/
theorem preprocess_leaves (s : Settings) : ∀ {items : List Item} {around : List Item → List Item}
    {taken : List Nat} {next : Nat}, Leaves items → Frame around parent taken → Fits taken (idsIn items) next →
      Follows (Tree.preprocess s (idsIn items) ⟨around items, next⟩) ((nodes items).mapM (rewriteMarker s))
        around (idsIn items) next
  | [], around, taken, next, _, _, _ => by
    have none := Follows.pure around [] [] (Nat.le_refl next)
      fun i inside => absurd inside (by rw [idsIn]; exact List.not_mem_nil)
    unfold Tree.preprocess
    cases s.preprocessDirectives <;> simpa [idsIn, nodes] using none
  | item :: rest, around, taken, next, leaves, frame, fits => by
    obtain ⟨i, kind, t, rfl⟩ := leaves item (List.mem_cons_self ..)
    have both := Follows.cons (Tree.preprocess s) frame fits (Tree.preprocess_append s)
      (fun frame fits => frame.preprocess_leaf (fits.free i (by rw [ids]; exact List.mem_singleton_self i)) s kind t)
      (fun frame fits => preprocess_leaves s (fun b inside => leaves b (List.mem_cons_of_mem _ inside)) frame fits)
    simpa [nodes, node] using both

/-- A leaf makes room for the nodes of its text, or is preprocessed. -/
theorem visitAt_leaf {i next : Nat} (frame : Frame around parent taken) (fits : Fits taken [i] next)
    (s : Settings) (kind : LeafKind) (t : Text) :
    Follows (Tree.visitAt s ⟨around [.leaf i kind t], next⟩ i) (do countNode; rewriteLeaf s parent kind t)
      around [i] next := by
  have free : i ∉ taken := fits.free i (List.mem_singleton_self i)
  rw [Tree.visitAt, frame.find_leaf free]
  refine Follows.bind fun _ => ?_
  unfold rewriteLeaf
  cases interpolated : Interpolation.textNodes? s (some parent) (.leaf kind t) with
  | none => exact frame.preprocess_leaf free s kind t
  | some ns =>
    refine Follows.bind fun _ => Follows.bind fun _ => ?_
    -- The new nodes take numbers from `next` on, which the walk has not noted.
    have leaves := leaves_numberAll next (Interpolation.textNodes?_leaves interpolated)
    have preprocessed := preprocess_leaves s leaves frame (fits.new ns)
    rw [nodes_numberAll] at preprocessed
    simp only [frame.replace_leaf free, leaves.map_idOf]
    refine preprocessed.weaken (Nat.le_add_right next (sizes ns)) fun j inside => .inr ?_
    rw [idsIn_numberAll, List.mem_range'_1] at inside
    exact inside

mutual
theorem walk_follows_node (s : Settings) : ∀ (item : Item) {around : List Item → List Item} {parent : Text}
    {taken : List Nat} {next : Nat}, Frame around parent taken → Fits taken (ids item) next →
      Follows (Tree.walk s (ids item) ⟨around [item], next⟩) (rewriteNode s parent (node item))
        around (ids item) next
  | .element i tag attributes children, around, parent, taken, next, frame, fits => by
    rw [ids] at fits ⊢
    unfold node rewriteNode
    have free : i ∉ taken := fits.free i (List.mem_cons_self ..)
    rw [Tree.walk, List.foldlM_cons, frame.visitAt_element free]
    simp only [bind_assoc, pure_bind]
    refine Follows.bind fun _ => Follows.bind fun rewritten => ?_
    intro st
    -- The children are walked in a frame that has their element around them.
    have below := walk_follows s children (frame.below i tag rewritten) fits.below st
    rw [bind_apply]
    cases given : rewriteNodes s tag (nodes children) st with
    | error e st' =>
      rw [given] at below
      exact below
    | ok ns st' =>
      rw [given] at below
      obtain ⟨items, next', ran, same, later, old⟩ := below
      refine ⟨[.element i tag rewritten items], next', ran, ?_, later, fun j inside => ?_⟩
      · rw [nodes, node, nodes, same]
      · rw [idsIn, ids, idsIn, List.append_nil, List.mem_cons] at inside
        rcases inside with rfl | inside
        · exact .inl (List.mem_cons_self ..)
        · rcases old j inside with stood | new
          · exact .inl (List.mem_cons_of_mem _ stood)
          · exact .inr new
  | .leaf i kind t, around, parent, taken, next, frame, fits => by
    rw [ids] at fits ⊢
    unfold node rewriteNode
    simpa only [Tree.walk, List.foldlM_cons, List.foldlM_nil, bind_pure] using visitAt_leaf frame fits s kind t

/-- The nodes of a place, visited one after the other, become what rewriting
    makes of them, whatever is around them. -/
theorem walk_follows (s : Settings) : ∀ (items : List Item) {around : List Item → List Item} {parent : Text}
    {taken : List Nat} {next : Nat}, Frame around parent taken → Fits taken (idsIn items) next →
      Follows (Tree.walk s (idsIn items) ⟨around items, next⟩) (rewriteNodes s parent (nodes items))
        around (idsIn items) next
  | [], around, parent, taken, next, frame, _ => by
    unfold nodes rewriteNodes
    rw [idsIn, Tree.walk, List.foldlM_nil]
    exact Follows.pure around [] [] (Nat.le_refl next) fun i inside =>
      absurd inside (by rw [idsIn]; exact List.not_mem_nil)
  | item :: rest, around, parent, taken, next, frame, fits => by
    unfold nodes rewriteNodes
    exact Follows.cons (Tree.walk s) frame fits (Tree.walk_append s) (walk_follows_node s item) (walk_follows s rest)
end

/-! ## Results -/

theorem fits_whole (document : List Node) : Fits [] (idsIn (numberAll 0 document)) (sizes document) where
  nodup := by
    rw [idsIn_numberAll]
    exact List.nodup_range'
  free i _ := List.not_mem_nil
  taken_lt i inside := absurd inside List.not_mem_nil
  numbers_lt := by
    intro i inside
    rw [idsIn_numberAll, List.mem_range'_1, Nat.zero_add] at inside
    exact inside.2

/-- Compiling in place gives what rewriting gives. -/
theorem compile_eq_rewrite (s : Settings) (document : List Node) (st : State) :
    compile s document st = rewrite s document st := by
  have follows := walk_follows s (numberAll 0 document) Frame.whole (fits_whole document) st
  rw [nodes_numberAll] at follows
  unfold compile rewrite
  rw [bind_apply]
  cases given : rewriteNodes s Document.rootTag document st with
  | error e st' =>
    rw [given] at follows
    simp only [follows]
  | ok ns st' =>
    rw [given] at follows
    obtain ⟨items, next', ran, same, _, _⟩ := follows
    simp only [ran]
    rw [pure_apply, same]

/-- With the standard stages for nodes, compiling a document is rewriting it
    along its tree, and so is editing it in place over the nodes noted before.
    Every node of the document is visited once. -/
theorem compile_is_rewriting (s : Settings) (document : List Node) (st : State)
    (standard : st.nodeStages = some Standard.nodeStages) :
    Document.compile s document st = rewrite s document st ∧
      compile s document st = rewrite s document st ∧
      (idsIn (numberAll 0 document)).Nodup ∧
      ∀ ns st', Document.compile s document st = .ok ns st' →
        st'.stats.nodes = st.stats.nodes + (idsIn (numberAll 0 document)).length := by
  have same : Document.compile s document st = rewrite s document st :=
    compileNodes_eq_rewriteNodes s Document.rootTag document standard
  refine ⟨same, compile_eq_rewrite s document st, (fits_whole document).nodup, fun ns st' ran => ?_⟩
  rw [same] at ran
  rw [idsIn_numberAll, List.length_range']
  exact counted_rewriteNodes s Document.rootTag document ran

/-- A state with the standard stages for nodes. -/
def plainState : State := { registry := { divider := lit "." }, nodeStages := some Standard.nodeStages }

/-- A paragraph with a text that is interpolated and a marker. -/
def greeting : List Node :=
  [.element (lit "p") .empty [.ofText (lit "Hi \x7b\x7b name \x7d\x7d!"), .ofComment (lit "ko if: a")]]

theorem compile_is_rewriting_greeting :
    plainState.nodeStages = some Standard.nodeStages ∧
      Document.compile {} greeting plainState = rewrite {} greeting plainState ∧
      compile {} greeting plainState = rewrite {} greeting plainState ∧
      (idsIn (numberAll 0 greeting)).Nodup ∧
      ∀ ns st', Document.compile {} greeting plainState = .ok ns st' →
        st'.stats.nodes = plainState.stats.nodes + (idsIn (numberAll 0 greeting)).length :=
  ⟨rfl, compile_is_rewriting {} greeting plainState rfl⟩

example :
    (match compile {} greeting plainState with
      | .ok ns st => some (Html.write ns, st.stats.nodes)
      | .error _ _ => none) =
      some (lit "<p>Hi <!--ko text:name--><!--/ko-->!<!--ko if:a--></p>", 3) := by
  decide +kernel

end Numbered
end Bindmark
