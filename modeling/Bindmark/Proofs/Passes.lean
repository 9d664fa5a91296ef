import Bindmark.Proofs.Scanning

/-!
# Passes over a region

A region is cut in passes, from its end to its start. Every pass looks at what is
left of the region, finds the closing token of the last expression but one and the
opening token of the last one, and leaves what is before the closing token. No pass
misses that opening token, and every pass leaves less than it was given, also when
one of the tokens is empty. So the passes come to an end, with the segments of the
region.
-/

namespace Bindmark.Segment
open Text (StandsAt)

variable {opening closing region : Text}

/-! ## One pass -/

/-- A pass over what is left of a region before `stop`. -/
structure Pass where
  stop : Nat
  /-- Where the closing token stands, before which the next pass stops. -/
  close : Nat
  /-- Where the literal after that token begins. -/
  literalStart : Nat
  /-- Where the opening token stands that ends the literal, if there is one. -/
  expressionOpen : Option Nat

/-- The pass over a region before `stop`, unless no closing token stands there before
    an opening one. -/
def pass? (opening closing region : Text) (stop : Nat) : Option Pass :=
  (closing? opening closing (region.take stop)).map fun close =>
    { stop, close
      literalStart := close + closing.length
      expressionOpen := openingFrom? opening (region.take stop) (close + closing.length) }

/-- The places of a pass, with its opening token at `start`. -/
structure Pass.InOrder (opening : Text) (pass : Pass) (start : Nat) : Prop where
  found : pass.expressionOpen = some start
  closes : pass.close ≤ pass.literalStart
  literal : pass.literalStart ≤ start
  opens : start ≤ start + opening.length
  stops : start + opening.length ≤ pass.stop
  shorter : pass.close < pass.stop

theorem stop_of_pass? {stop : Nat} {pass : Pass} (made : pass? opening closing region stop = some pass) :
    pass.stop = stop := by
  obtain ⟨close, -, rfl⟩ := Option.map_eq_some_iff.mp made
  rfl

/-- A pass that finds a closing token finds its opening token as well, and leaves less
    than it was given. -/
theorem inOrder_of_pass? (tokens : opening ≠ [] ∨ closing ≠ []) {stop : Nat} (within : stop ≤ region.length)
    {pass : Pass} (made : pass? opening closing region stop = some pass) : ∃ start, pass.InOrder opening start := by
  obtain ⟨close, closed, rfl⟩ := Option.map_eq_some_iff.mp made
  have length : (region.take stop).length = stop := by rw [List.length_take]; omega
  -- The search for the opening token goes on from where the searches before it have found one.
  obtain ⟨⟨⟨before, rest, split, rfl⟩, k, stands, after, -⟩, -⟩ := closing?_eq_some closed
  rw [← List.length_append] at after
  rw [split] at stands length
  have tokensLength : 0 < opening.length + closing.length := by
    rcases tokens with some_ | some_ <;> have := List.length_pos_iff.mpr some_ <;> omega
  cases found : openingFrom? opening (before ++ closing ++ rest) (before ++ closing).length with
  | none => exact absurd after (openingFrom?_eq_none found k stands)
  | some start =>
    obtain ⟨literal, expression, rfl, rfl, -⟩ := openingFrom?_eq_some found
    simp only [List.length_append] at length
    refine ⟨(before ++ closing ++ literal).length, ?_, ?_, ?_, ?_, ?_, ?_⟩
    · rw [← List.length_append, split]
      exact found
    all_goals simp only [List.length_append]; omega

/-! ## All passes -/

/-- The passes over a region before `stop`, and the segments that they cut off, with
    what is left in front. -/
inductive Passes (opening closing region : Text) : Nat → List Pass → List Segment → Prop
  | done {stop : Nat} (uncut : pass? opening closing region stop = none) :
      Passes opening closing region stop [] (expression? (region.take stop))
  | next {stop start : Nat} {pass : Pass} {passes : List Pass} {segments : List Segment}
      (made : pass? opening closing region stop = some pass) (opens : pass.expressionOpen = some start)
      (later : Passes opening closing region pass.close passes segments) :
      Passes opening closing region stop (pass :: passes)
        (segments ++ literal? ((region.take start).drop pass.literalStart) ++
          expression? ((region.take stop).drop (start + opening.length)))

/-- There is one way to go on from every place. -/
theorem Passes.unique {stop : Nat} {passes passes' : List Pass} {segments segments' : List Segment}
    (one : Passes opening closing region stop passes segments)
    (other : Passes opening closing region stop passes' segments') : passes = passes' ∧ segments = segments' := by
  induction one generalizing passes' segments' with
  | done uncut =>
    cases other with
    | done => exact ⟨rfl, rfl⟩
    | next made => simp [uncut] at made
  | next made opens _ ih =>
    cases other with
    | done uncut => simp [uncut] at made
    | next made' opens' later' =>
      obtain rfl := Option.some.inj (made.symm.trans made')
      obtain rfl := Option.some.inj (opens.symm.trans opens')
      obtain ⟨rfl, rfl⟩ := ih later'
      exact ⟨rfl, rfl⟩

/-- Splitting what is left of a region before a place goes on before the closing token. -/
theorem splitRegion_take {stop start : Nat} {pass : Pass} (made : pass? opening closing region stop = some pass)
    (within : stop ≤ region.length) (inOrder : pass.InOrder opening start) :
    splitRegion opening closing (region.take stop) =
      splitRegion opening closing (region.take pass.close) ++
        literal? ((region.take start).drop pass.literalStart) ++
          expression? ((region.take stop).drop (start + opening.length)) := by
  obtain ⟨close, closed, rfl⟩ := Option.map_eq_some_iff.mp made
  have shorter : close < stop := inOrder.shorter
  have stops : start + opening.length ≤ stop := inOrder.stops
  have found : openingFrom? opening (region.take stop) (close + closing.length) = some start := inOrder.found
  have cut : cut? opening closing (region.take stop) = some
      { rest := region.take close
        literal := (region.take start).drop (close + closing.length)
        expression := (region.take stop).drop (start + opening.length) } := by
    rw [cut?, closed, Option.bind_some, found, Option.map_some, List.take_take, List.take_take,
      Nat.min_eq_left (Nat.le_of_lt shorter), Nat.min_eq_left (by omega : start ≤ stop)]
  have less : (region.take close).length < (region.take stop).length := by
    simp only [List.length_take]
    omega
  rw [splitRegion, cut]
  simp only [less, ↓reduceIte]

theorem exists_passes (tokens : opening ≠ [] ∨ closing ≠ []) (stop : Nat) (within : stop ≤ region.length) :
    ∃ passes, Passes opening closing region stop passes (splitRegion opening closing (region.take stop)) ∧
      (∀ pass ∈ passes, ∃ start, pass.InOrder opening start) ∧
      passes.Pairwise (fun pass later => later.stop < pass.stop) ∧ ∀ pass ∈ passes, pass.stop ≤ stop := by
  induction stop using Nat.strongRecOn with
  | ind stop ih =>
    cases made : pass? opening closing region stop with
    | none =>
      have uncut : splitRegion opening closing (region.take stop) = expression? (region.take stop) := by
        rw [splitRegion, cut?, Option.map_eq_none_iff.mp made]
        rfl
      exact ⟨[], uncut ▸ .done made, by simp, .nil, by simp⟩
    | some pass =>
      obtain ⟨start, inOrder⟩ := inOrder_of_pass? tokens within made
      have shorter := inOrder.shorter
      have same := stop_of_pass? made
      rw [same] at shorter
      obtain ⟨passes, later, ordered, descend, below⟩ := ih pass.close shorter (by omega)
      refine ⟨pass :: passes, ?_, ?_, ?_, ?_⟩
      · rw [splitRegion_take made within inOrder]
        exact .next made inOrder.found later
      · exact List.forall_mem_cons.mpr ⟨⟨start, inOrder⟩, ordered⟩
      · refine List.pairwise_cons.mpr ⟨fun other inside => ?_, descend⟩
        have := below other inside
        omega
      · refine List.forall_mem_cons.mpr ⟨Nat.le_of_eq same, fun other inside => ?_⟩
        have := below other inside
        omega

/-- Unless both tokens are empty, a pass before any place of a region finds its
    opening token whenever it finds a closing one; its places are in order, and it
    leaves less than it was given. So there is just one sequence of passes over a
    region, every pass stops before the one that it follows, and what they cut off are
    the segments of the region. -/
theorem splitRegion_in_passes (tokens : opening ≠ [] ∨ closing ≠ []) (region : Text) :
    (∀ stop ≤ region.length, ∀ pass, pass? opening closing region stop = some pass →
      pass.stop = stop ∧ ∃ start, pass.InOrder opening start) ∧
    ∃ passes, Passes opening closing region region.length passes (splitRegion opening closing region) ∧
      (∀ passes' segments, Passes opening closing region region.length passes' segments →
        passes' = passes ∧ segments = splitRegion opening closing region) ∧
      (∀ pass ∈ passes, ∃ start, pass.InOrder opening start) ∧
      passes.Pairwise fun pass later => later.stop < pass.stop := by
  refine ⟨fun stop within pass made => ⟨stop_of_pass? made, inOrder_of_pass? tokens within made⟩, ?_⟩
  obtain ⟨passes, run, ordered, descend, -⟩ := exists_passes tokens region.length (Nat.le_refl _)
  rw [List.take_length] at run
  exact ⟨passes, run, fun passes' segments other => other.unique run, ordered, descend⟩

/-- With an empty opening token, a region is cut at each closing token. -/
theorem splitRegion_in_passes_bare :
    (([] : Text) ≠ [] ∨ lit "%" ≠ []) ∧
      splitRegion [] (lit "%") (lit "a%b%c") =
        [.expression (lit "a"), .expression (lit "b"), .expression (lit "c")] ∧
      Passes [] (lit "%") (lit "a%b%c") 5 [⟨5, 3, 4, some 4⟩, ⟨3, 1, 2, some 2⟩]
        (splitRegion [] (lit "%") (lit "a%b%c")) := by
  have tokens : ([] : Text) ≠ [] ∨ lit "%" ≠ [] := .inr (by decide)
  have cuts : Passes [] (lit "%") (lit "a%b%c") 5 [⟨5, 3, 4, some 4⟩, ⟨3, 1, 2, some 2⟩] _ :=
    .next rfl rfl (.next rfl rfl (.done rfl))
  obtain ⟨-, passes, run, only, -⟩ := splitRegion_in_passes tokens (lit "a%b%c")
  obtain ⟨-, split⟩ := only _ _ cuts
  exact ⟨tokens, split.symm.trans (by decide), split ▸ cuts⟩

end Bindmark.Segment
