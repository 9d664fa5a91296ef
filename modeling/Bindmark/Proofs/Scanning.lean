import Bindmark.Proofs.Occurrence
import Bindmark.Segment.Scan
import Mathlib.Data.List.Induction

/-!
# What scanning finds

A text with markup has one layout: literals with expressions between them,
where every expression stands between an opening and a closing token. Which
tokens these are is fixed by rules on positions of the whole text (`Chosen`).
Scanning gives the segments of that layout, and no literal of it is markup.
A region between the outer tokens is cut from the right (`Parted`).
-/

namespace Bindmark.Segment
open Text (StandsAt standsAt_of_eq)

variable {opening closing : Text}

/-! ## Closing tokens before opening tokens -/

/-- A closing token stands at `i`, and after it a whole opening token that ends
    by `stop`. -/
def ClosesAt (opening closing t : Text) (stop i : Nat) : Prop :=
  StandsAt closing t i ∧ ∃ k, StandsAt opening t k ∧ i + closing.length ≤ k ∧ k + opening.length ≤ stop

/-- A text holds a closing token and after it an opening token. -/
def Separated (opening closing t : Text) : Prop := ∃ a b c, t = a ++ closing ++ b ++ opening ++ c

theorem closesAt_of_eq {t a b c : Text} (split : t = a ++ closing ++ b ++ opening ++ c) :
    ClosesAt opening closing t t.length a.length := by
  have closes : t = a ++ closing ++ (b ++ opening ++ c) := by rw [split]; simp
  refine ⟨standsAt_of_eq closes, (a ++ closing ++ b).length, standsAt_of_eq split, ?_, ?_⟩
  · simp only [List.length_append]; omega
  · rw [split]; simp only [List.length_append]; omega

/-- Within a part of a text, seen from the part. -/
theorem ClosesAt.inside {x t y : Text} {i : Nat}
    (closes : ClosesAt opening closing (x ++ t ++ y) (x ++ t).length i) (low : x.length ≤ i) :
    ClosesAt opening closing t t.length (i - x.length) := by
  obtain ⟨stands, k, after, left, right⟩ := closes
  refine ⟨stands.inside low (by omega), k - x.length, after.inside (by omega) right, by omega, ?_⟩
  rw [List.length_append] at right
  omega

/-- Within a part of a text, seen from the whole. -/
theorem ClosesAt.outside {t : Text} {i : Nat} (closes : ClosesAt opening closing t t.length i) (x y : Text) :
    ClosesAt opening closing (x ++ t ++ y) (x ++ t).length (x.length + i) := by
  obtain ⟨stands, k, after, left, right⟩ := closes
  refine ⟨(stands.append_left x).append_right y, x.length + k, (after.append_left x).append_right y, by omega, ?_⟩
  rw [List.length_append]
  omega

/-! ## The tokens at which a region is cut -/

theorem closing?_eq_some {region : Text} {close : Nat} (found : closing? opening closing region = some close) :
    ClosesAt opening closing region region.length close ∧
      ∀ i, ClosesAt opening closing region region.length i → i ≤ close := by
  obtain ⟨k, lastOpen, lastClose⟩ := Option.bind_eq_some_iff.mp found
  obtain ⟨opens, greatestOpen⟩ := Text.lastIndexOf?_eq_some lastOpen
  obtain ⟨closes, greatestClose⟩ := Text.lastIndexOf?_eq_some lastClose
  have bound := closes.bound
  rw [List.length_take] at bound
  constructor
  · refine ⟨?_, k, opens, by omega, opens.bound⟩
    have := closes.append_right (region.drop k)
    rwa [List.take_append_drop] at this
  · rintro i ⟨stands, j, after, left, -⟩
    apply greatestClose
    have := greatestOpen j after
    have := opens.bound
    rw [← List.take_append_drop k region] at stands
    exact stands.of_append_right (by rw [List.length_take]; omega)

theorem closing?_eq_none {region : Text} (missing : closing? opening closing region = none) (i : Nat) :
    ¬ ClosesAt opening closing region region.length i := by
  rintro ⟨stands, j, after, left, -⟩
  rcases Option.bind_eq_none_iff.mp missing with none
  cases lastOpen : Text.lastIndexOf? opening region with
  | none => exact Text.lastIndexOf?_eq_none lastOpen j after
  | some k =>
    obtain ⟨opens, greatest⟩ := Text.lastIndexOf?_eq_some lastOpen
    have := greatest j after
    have := opens.bound
    rw [← List.take_append_drop k region] at stands
    exact Text.lastIndexOf?_eq_none (none k lastOpen) i
      (stands.of_append_right (by rw [List.length_take]; omega))

theorem openingFrom?_eq_some {x rest : Text} {start : Nat}
    (found : openingFrom? opening (x ++ rest) x.length = some start) :
    ∃ literal expression, rest = literal ++ opening ++ expression ∧ start = (x ++ literal).length ∧
      ∀ k, StandsAt opening (x ++ rest) k → x.length ≤ k → start ≤ k := by
  obtain ⟨offset, next, rfl⟩ := Option.map_eq_some_iff.mp found
  rw [List.drop_left] at next
  obtain ⟨⟨literal, expression, split, rfl⟩, nearest⟩ := Text.indexOf?_eq_some next
  refine ⟨literal, expression, split, by simp, fun k stands after => ?_⟩
  rw [show k = x.length + (k - x.length) by omega] at stands
  have := nearest _ stands.of_append_left
  omega

theorem openingFrom?_eq_none {x rest : Text} (missing : openingFrom? opening (x ++ rest) x.length = none)
    (k : Nat) (stands : StandsAt opening (x ++ rest) k) : ¬ x.length ≤ k := by
  intro after
  rw [openingFrom?, List.drop_left, Option.map_eq_none_iff] at missing
  rw [show k = x.length + (k - x.length) by omega] at stands
  exact Text.indexOf?_eq_none missing _ stands.of_append_left

/-! ## The cut of a region -/

/-- Where a region is cut: at the last closing token with an opening token
    after it, and at the first opening token after that. -/
structure IsCut (opening closing region rest literal expression : Text) : Prop where
  split : region = rest ++ closing ++ literal ++ opening ++ expression
  last : ∀ i, ClosesAt opening closing region region.length i → i ≤ rest.length
  nearest : ∀ k, StandsAt opening region k → (rest ++ closing).length ≤ k →
    (rest ++ closing ++ literal).length ≤ k

/-- A region without a closing token before an opening one is not cut. -/
theorem not_separated_of_cut?_eq_none {region : Text} (uncut : cut? opening closing region = none) :
    ¬ Separated opening closing region := by
  rintro ⟨a, b, c, split⟩
  have closes := closesAt_of_eq split
  cases found : closing? opening closing region with
  | none => exact closing?_eq_none found _ closes
  | some close =>
    obtain ⟨⟨⟨before, rest, split, rfl⟩, k, opens, after, -⟩, -⟩ := closing?_eq_some found
    have missing := Option.map_eq_none_iff.mp (Option.bind_eq_none_iff.mp uncut _ found)
    rw [← List.length_append, split] at missing
    rw [split] at opens
    exact openingFrom?_eq_none missing k opens (by rw [List.length_append]; omega)

theorem isCut_of_cut?_eq_some {region : Text} {cut : Cut} (found : cut? opening closing region = some cut) :
    IsCut opening closing region cut.rest cut.literal cut.expression := by
  obtain ⟨close, closed, opened⟩ := Option.bind_eq_some_iff.mp found
  obtain ⟨start, next, rfl⟩ := Option.map_eq_some_iff.mp opened
  obtain ⟨⟨⟨before, tail, split, rfl⟩, -⟩, last⟩ := closing?_eq_some closed
  rw [← List.length_append, split] at next
  obtain ⟨literal, expression, rfl, rfl, nearest⟩ := openingFrom?_eq_some next
  have whole : region = before ++ closing ++ literal ++ opening ++ expression := by rw [split]; simp
  have restIs : region.take before.length = before := by
    rw [whole]; simp
  have literalIs : (region.take (before ++ closing ++ literal).length).drop (before.length + closing.length) =
      literal := by
    rw [whole, List.append_assoc (before ++ closing ++ literal), List.take_left, ← List.length_append,
      List.drop_left]
  have expressionIs : region.drop ((before ++ closing ++ literal).length + opening.length) = expression := by
    rw [whole, ← List.length_append, List.drop_left]
  simp only [restIs, literalIs, expressionIs]
  rw [← split] at nearest
  exact ⟨whole, last, nearest⟩

/-- A region is cut in one way. -/
theorem IsCut.unique {region rest literal expression rest' literal' expression' : Text}
    (one : IsCut opening closing region rest literal expression)
    (other : IsCut opening closing region rest' literal' expression') :
    rest = rest' ∧ literal = literal' ∧ expression = expression' := by
  have sameRest : rest.length = rest'.length :=
    Nat.le_antisymm (other.last _ (closesAt_of_eq one.split)) (one.last _ (closesAt_of_eq other.split))
  have sameLiteral : (rest ++ closing ++ literal).length = (rest' ++ closing ++ literal').length := by
    apply Nat.le_antisymm
    · exact one.nearest _ (standsAt_of_eq other.split) (by simp only [List.length_append]; omega)
    · exact other.nearest _ (standsAt_of_eq one.split) (by simp only [List.length_append]; omega)
  have texts := one.split.symm.trans other.split
  simp only [List.append_assoc] at texts
  obtain ⟨rfl, afterRest⟩ := List.append_inj texts sameRest
  simp only [List.length_append, Nat.add_left_cancel_iff] at sameLiteral
  obtain ⟨rfl, afterLiteral⟩ := List.append_inj (List.append_cancel_left afterRest) sameLiteral
  exact ⟨rfl, rfl, List.append_cancel_left afterLiteral⟩

/-! ## The parts of a region -/

/-- A region cut as often as it can be: the expressions with the literals after
    them, and the last expression. -/
inductive Parted (opening closing : Text) : Text → List (Text × Text) → Text → Prop
  | whole {region : Text} (uncut : ¬ Separated opening closing region) : Parted opening closing region [] region
  | cut {region rest first literal expression : Text} {parts : List (Text × Text)}
      (isCut : IsCut opening closing region rest literal expression)
      (parted : Parted opening closing rest parts first) :
      Parted opening closing region (parts ++ [(first, literal)]) expression

/-- The segments of expressions with the literals after them. -/
def segmentsOf (parts : List (Text × Text)) : List Segment := parts.flatMap fun (e, l) => expression? e ++ literal? l

theorem segmentsOf_append (parts more : List (Text × Text)) :
    segmentsOf (parts ++ more) = segmentsOf parts ++ segmentsOf more := List.flatMap_append

/-- Every region is parted, and splitting it gives the segments of its parts. -/
theorem splitRegion_parted (tokens : opening ≠ [] ∨ closing ≠ []) (region : Text) :
    ∃ parts last, Parted opening closing region parts last ∧
      splitRegion opening closing region = segmentsOf parts ++ expression? last := by
  rw [splitRegion]
  cases found : cut? opening closing region with
  | none => exact ⟨[], region, .whole (not_separated_of_cut?_eq_none found), rfl⟩
  | some cut =>
    have isCut := isCut_of_cut?_eq_some found
    -- With two empty tokens a cut would leave the region as it is.
    have shorter : cut.rest.length < region.length := by
      have length := congrArg List.length isCut.split
      simp only [List.length_append] at length
      rcases tokens with nonempty | nonempty <;> have := List.length_pos_iff.mpr nonempty <;> omega
    obtain ⟨parts, first, parted, segments⟩ := splitRegion_parted tokens cut.rest
    refine ⟨_, _, .cut isCut parted, ?_⟩
    simp only [shorter, ↓reduceIte, segments, segmentsOf_append]
    simp [segmentsOf]
termination_by region.length

theorem parted_snoc {region first literal last : Text} {parts : List (Text × Text)} :
    Parted opening closing region (parts ++ [(first, literal)]) last ↔
      ∃ rest, IsCut opening closing region rest literal last ∧ Parted opening closing rest parts first := by
  constructor
  · generalize all : parts ++ [(first, literal)] = pairs
    intro parted
    cases parted with
    | whole => simp at all
    | cut isCut parted =>
      obtain ⟨rfl, pair⟩ := List.append_inj' all rfl
      simp only [List.cons.injEq, Prod.mk.injEq, and_true] at pair
      obtain ⟨rfl, rfl⟩ := pair
      exact ⟨_, isCut, parted⟩
  · rintro ⟨rest, isCut, parted⟩
    exact .cut isCut parted

theorem parted_nil {region last : Text} :
    Parted opening closing region [] last ↔ last = region ∧ ¬ Separated opening closing region := by
  constructor
  · generalize none : [] = pairs
    intro parted
    cases parted with
    | whole uncut => exact ⟨rfl, uncut⟩
    | cut => simp at none
  · rintro ⟨rfl, uncut⟩
    exact .whole uncut

/-- A region is parted in one way. -/
theorem Parted.unique {region last last' : Text} {parts parts' : List (Text × Text)}
    (one : Parted opening closing region parts last) (other : Parted opening closing region parts' last') :
    parts = parts' ∧ last = last' := by
  induction one generalizing parts' last' with
  | whole uncut =>
    cases other with
    | whole => exact ⟨rfl, rfl⟩
    | cut isCut _ => exact absurd ⟨_, _, _, isCut.split⟩ uncut
  | cut isCut _ ih =>
    cases other with
    | whole uncut => exact absurd ⟨_, _, _, isCut.split⟩ uncut
    | cut isCut' parted' =>
      obtain ⟨rfl, rfl, rfl⟩ := isCut.unique isCut'
      obtain ⟨rfl, rfl⟩ := ih parted'
      exact ⟨rfl, rfl⟩

/-! ## Layouts -/

/-- A text taken apart: the literal before the first expression, and the
    expressions with the literals after them. -/
structure Layout where
  before : Text
  parts : List (Text × Text)

/-- The text of a layout: every expression stands between the tokens. -/
def Layout.text (opening closing : Text) (d : Layout) : Text :=
  d.before ++ d.parts.flatMap fun (e, l) => opening ++ e ++ closing ++ l

/-- The segments of a layout; empty ones are left out. -/
def Layout.segments (d : Layout) : List Segment := literal? d.before ++ segmentsOf d.parts

/-- The literal after the last expression. -/
def Layout.after (d : Layout) : Text := (d.parts.getLast?.map Prod.snd).getD []

/-- The rules between one expression and the next, where `u` is the text before
    the token that closes the first: that token is the last closing one with a
    whole opening token after it before the token that closes the second, and
    the second is opened by the first opening token from there on. -/
structure Next (opening closing t u literal expression : Text) : Prop where
  last : ∀ i, ClosesAt opening closing t (u ++ closing ++ literal ++ opening ++ expression).length i → i ≤ u.length
  nearest : ∀ k, StandsAt opening t k → (u ++ closing).length ≤ k → (u ++ closing ++ literal).length ≤ k

/-- The layout of a text that the rules choose. -/
structure Layout.Chosen (opening closing t : Text) (d : Layout) : Prop where
  text_eq : t = d.text opening closing
  nonempty : d.parts ≠ []
  first_opening : ∀ i, StandsAt opening t i → d.before.length ≤ i
  last_closing : ∀ i, StandsAt closing t i → i + closing.length + d.after.length ≤ t.length
  next : ∀ front e l e' l' rest, d.parts = front ++ (e, l) :: (e', l') :: rest →
    Next opening closing t (Layout.text opening closing ⟨d.before, front⟩ ++ opening ++ e) l e'
  inside : ∀ e l, (e, l) ∈ d.parts → ¬ Separated opening closing e

/-! ## The chosen layout is how the region is parted -/

/-- The rules between two expressions say where the region up to the second is cut. -/
theorem next_iff_isCut (opening closing x y rest literal expression : Text) :
    Next opening closing (x ++ (rest ++ closing ++ literal ++ opening ++ expression) ++ y) (x ++ rest) literal
        expression ↔
      IsCut opening closing (rest ++ closing ++ literal ++ opening ++ expression) rest literal expression := by
  generalize whole : rest ++ closing ++ literal ++ opening ++ expression = region
  have stop : (x ++ rest ++ closing ++ literal ++ opening ++ expression).length = (x ++ region).length := by
    rw [← whole]; simp
  constructor
  · rintro ⟨last, nearest⟩
    rw [stop] at last
    refine ⟨whole.symm, fun i closes => ?_, fun k stands after => ?_⟩
    · have := last _ (closes.outside x y)
      rw [List.length_append] at this
      omega
    · have := nearest _ ((stands.append_left x).append_right y) (by simp only [List.length_append] at *; omega)
      simp only [List.length_append] at *
      omega
  · rintro ⟨-, last, nearest⟩
    refine ⟨fun i closes => ?_, fun k stands after => ?_⟩
    · rw [stop] at closes
      rw [List.length_append]
      rcases Nat.lt_or_ge i x.length with outside | low
      · omega
      · have := last _ (closes.inside low)
        omega
    · by_contra early
      have long := congrArg List.length whole
      simp only [List.length_append] at after early long
      have := nearest _ (stands.inside (by omega) (by rw [List.length_append]; omega))
        (by rw [List.length_append]; omega)
      simp only [List.length_append] at this
      omega

/-- Expressions with the literals after them, before another expression. -/
def joined (opening closing : Text) (parts : List (Text × Text)) : Text :=
  parts.flatMap fun (e, l) => e ++ closing ++ l ++ opening

theorem joined_snoc (parts : List (Text × Text)) (e l : Text) :
    joined opening closing (parts ++ [(e, l)]) = joined opening closing parts ++ e ++ closing ++ l ++ opening := by
  simp [joined]

theorem Parted.region_eq {region last : Text} {parts : List (Text × Text)}
    (parted : Parted opening closing region parts last) : region = joined opening closing parts ++ last := by
  induction parted with
  | whole => rfl
  | cut isCut _ ih => rw [joined_snoc, isCut.split, ih]

/-- An expression that is cut off holds no closing token before an opening one. -/
theorem IsCut.not_separated (tokens : opening ≠ [] ∨ closing ≠ []) {region rest literal expression : Text}
    (isCut : IsCut opening closing region rest literal expression) : ¬ Separated opening closing expression := by
  rintro ⟨a, b, c, rfl⟩
  have split : region = (rest ++ closing ++ literal ++ opening ++ a) ++ closing ++ b ++ opening ++ c := by
    rw [isCut.split]; simp
  have := isCut.last _ (closesAt_of_eq split)
  simp only [List.length_append] at this
  rcases tokens with nonempty | nonempty <;> have := List.length_pos_iff.mpr nonempty <;> omega

/-- The rules between all the expressions of a list that follow `x`. -/
def Between (opening closing t x : Text) (parts : List (Text × Text)) : Prop :=
  ∀ front e l e' l' rest, parts = front ++ (e, l) :: (e', l') :: rest →
    Next opening closing t (x ++ joined opening closing front ++ e) l e'

theorem between_snoc {t x first literal last z : Text} {parts : List (Text × Text)} :
    Between opening closing t x (parts ++ [(first, literal)] ++ [(last, z)]) ↔
      Between opening closing t x (parts ++ [(first, literal)]) ∧
        Next opening closing t (x ++ joined opening closing parts ++ first) literal last := by
  constructor
  · intro between
    refine ⟨fun front e l e' l' rest split => between front e l e' l' (rest ++ [(last, z)]) (by rw [split]; simp), ?_⟩
    exact between parts first literal last z [] (by simp)
  · rintro ⟨between, next⟩ front e l e' l' rest split
    rcases List.eq_nil_or_concat rest with rfl | ⟨rest, pair, rfl⟩
    · have split : parts ++ [(first, literal), (last, z)] = front ++ [(e, l), (e', l')] := by simpa using split
      obtain ⟨rfl, pairs⟩ := List.append_inj' split rfl
      simp only [List.cons.injEq, Prod.mk.injEq, and_true] at pairs
      obtain ⟨⟨rfl, rfl⟩, rfl, -⟩ := pairs
      exact next
    · apply between front e l e' l' rest
      rw [List.concat_eq_append, ← List.cons_append, ← List.cons_append, ← List.append_assoc] at split
      exact (List.append_inj' split rfl).1

/-- How a region is parted, in rules on the whole text. -/
theorem parted_iff (tokens : opening ≠ [] ∨ closing ≠ []) (parts : List (Text × Text)) (x last y z : Text) :
    Parted opening closing (joined opening closing parts ++ last) parts last ↔
      Between opening closing (x ++ (joined opening closing parts ++ last) ++ y) x (parts ++ [(last, z)]) ∧
        ∀ e l, (e, l) ∈ parts ++ [(last, z)] → ¬ Separated opening closing e := by
  induction parts using List.reverseRecOn generalizing last y z with
  | nil =>
    rw [parted_nil]
    constructor
    · rintro ⟨-, uncut⟩
      refine ⟨fun front e l e' l' rest split => ?_, fun e l member => ?_⟩
      · have := congrArg List.length split
        simp only [List.length_append, List.length_cons, List.length_nil] at this
        omega
      · obtain ⟨rfl, rfl⟩ := Prod.mk.inj (List.mem_singleton.mp member)
        exact uncut
    · rintro ⟨-, inside⟩
      exact ⟨rfl, inside last z (by simp)⟩
  | append_singleton parts pair ih =>
    obtain ⟨first, literal⟩ := pair
    rw [between_snoc, parted_snoc]
    have region_eq : joined opening closing (parts ++ [(first, literal)]) ++ last =
        (joined opening closing parts ++ first) ++ closing ++ literal ++ opening ++ last := by
      rw [joined_snoc]
    have whole_eq : x ++ (joined opening closing parts ++ first) ++ (closing ++ literal ++ opening ++ last ++ y) =
        x ++ (joined opening closing (parts ++ [(first, literal)]) ++ last) ++ y := by
      rw [region_eq]; simp
    have ih := ih first (closing ++ literal ++ opening ++ last ++ y) literal
    rw [whole_eq] at ih
    have cut := next_iff_isCut opening closing x y (joined opening closing parts ++ first) literal last
    rw [← region_eq, ← List.append_assoc x _ first] at cut
    constructor
    · rintro ⟨rest, isCut, parted⟩
      obtain rfl := parted.region_eq
      obtain ⟨between, inside⟩ := ih.mp parted
      refine ⟨⟨between, cut.mpr isCut⟩, fun e l member => ?_⟩
      rcases List.mem_append.mp member with earlier | this
      · exact inside e l earlier
      · obtain ⟨rfl, rfl⟩ := Prod.mk.inj (List.mem_singleton.mp this)
        exact isCut.not_separated tokens
    · rintro ⟨⟨between, next⟩, inside⟩
      refine ⟨joined opening closing parts ++ first, cut.mp next, ih.mpr ⟨between, fun e l member => ?_⟩⟩
      exact inside e l (List.mem_append_left _ member)

/-! ## The outer tokens -/

/-- Where the markup of a text is: between its first opening token and its last
    closing token. -/
structure IsMarkup (opening closing t before region after : Text) : Prop where
  split : t = before ++ opening ++ region ++ closing ++ after
  first : ∀ i, StandsAt opening t i → before.length ≤ i
  last : ∀ i, StandsAt closing t i → i + closing.length + after.length ≤ t.length

theorem isMarkup_of_markup?_eq_some {t : Text} {m : Markup} (found : markup? opening closing t = some m) :
    IsMarkup opening closing t m.before m.region m.after := by
  obtain ⟨start, opens, found⟩ := Option.bind_eq_some_iff.mp found
  obtain ⟨stop, closes, found⟩ := Option.bind_eq_some_iff.mp found
  split at found
  · cases found
  · rename_i apart
    cases found
    obtain ⟨⟨before, rest, split, rfl⟩, first⟩ := Text.indexOf?_eq_some opens
    obtain ⟨stands, last⟩ := Text.lastIndexOf?_eq_some closes
    have inRest : StandsAt closing rest (stop - (before ++ opening).length) := by
      apply StandsAt.of_append_left (x := before ++ opening)
      rw [← split, List.length_append, show before.length + opening.length + (stop - (before.length + opening.length)) =
        stop by omega]
      exact stands
    obtain ⟨region, after, rfl, length⟩ := inRest
    have whole : t = before ++ opening ++ region ++ closing ++ after := by rw [split]; simp
    have stop_eq : stop = (before ++ opening ++ region).length := by
      simp only [List.length_append] at length ⊢; omega
    have beforeIs : t.take before.length = before := by rw [whole]; simp
    have regionIs : (t.take stop).drop (before.length + opening.length) = region := by
      rw [whole, stop_eq, List.append_assoc (before ++ opening ++ region), List.take_left, ← List.length_append,
        List.drop_left]
    have afterIs : t.drop (stop + closing.length) = after := by
      rw [whole, stop_eq, ← List.length_append, List.drop_left]
    simp only [beforeIs, regionIs, afterIs]
    refine ⟨whole, first, fun i other => ?_⟩
    have := last i other
    have length := congrArg List.length whole
    simp only [List.length_append] at length stop_eq
    omega

theorem markup?_eq_none_iff {t : Text} :
    markup? opening closing t = none ↔ ¬ ∃ a b c, t = a ++ opening ++ b ++ closing ++ c := by
  constructor
  · rintro none ⟨a, b, c, split⟩
    have atOpening : t = a ++ opening ++ (b ++ closing ++ c) := by rw [split]; simp
    have opensThere : StandsAt opening t a.length := standsAt_of_eq atOpening
    have closesThere : StandsAt closing t (a ++ opening ++ b).length := standsAt_of_eq split
    have none := Option.bind_eq_none_iff.mp none
    cases opens : Text.indexOf? opening t with
    | none => exact Text.indexOf?_eq_none opens _ opensThere
    | some start =>
      cases closes : Text.lastIndexOf? closing t with
      | none => exact Text.lastIndexOf?_eq_none closes _ closesThere
      | some stop =>
        have := (Text.indexOf?_eq_some opens).2 _ opensThere
        have := (Text.lastIndexOf?_eq_some closes).2 _ closesThere
        have nothing := Option.bind_eq_none_iff.mp (none start opens) stop closes
        rw [if_neg (by simp only [List.length_append] at *; omega)] at nothing
        cases nothing
  · intro unmarked
    cases found : markup? opening closing t with
    | none => rfl
    | some m => exact absurd ⟨_, _, _, (isMarkup_of_markup?_eq_some found).split⟩ unmarked

/-- The markup of a text is in one place. -/
theorem IsMarkup.unique {t before region after before' region' after' : Text}
    (one : IsMarkup opening closing t before region after)
    (other : IsMarkup opening closing t before' region' after') :
    before = before' ∧ region = region' ∧ after = after' := by
  have opens : ∀ {b r a : Text}, IsMarkup opening closing t b r a → StandsAt opening t b.length := by
    intro b r a m
    have : t = b ++ opening ++ (r ++ closing ++ a) := by rw [m.split]; simp
    exact standsAt_of_eq this
  have closes : ∀ {b r a : Text}, IsMarkup opening closing t b r a →
      StandsAt closing t (b ++ opening ++ r).length := fun m => standsAt_of_eq m.split
  have sameBefore : before.length = before'.length :=
    Nat.le_antisymm (one.first _ (opens other)) (other.first _ (opens one))
  have texts := one.split.symm.trans other.split
  have lengths := congrArg List.length texts
  have low := one.last _ (closes other)
  have high := other.last _ (closes one)
  rw [one.split] at high
  rw [other.split] at low
  simp only [List.length_append] at lengths low high
  simp only [List.append_assoc] at texts
  obtain ⟨rfl, afterBefore⟩ := List.append_inj texts sameBefore
  obtain ⟨rfl, afterRegion⟩ := List.append_inj (List.append_cancel_left afterBefore) (by omega)
  exact ⟨rfl, rfl, List.append_cancel_left afterRegion⟩

/-! ## The chosen layout of a text -/

theorem text_opening (before : Text) (parts : List (Text × Text)) :
    Layout.text opening closing ⟨before, parts⟩ ++ opening = before ++ opening ++ joined opening closing parts := by
  induction parts using List.reverseRecOn with
  | nil => simp [Layout.text, joined]
  | append_singleton parts pair ih =>
    obtain ⟨e, l⟩ := pair
    rw [joined_snoc, ← List.append_assoc, ← List.append_assoc, ← List.append_assoc, ← List.append_assoc, ← ih]
    simp [Layout.text]

/-- A layout is the chosen one when it stands between the outer tokens and parts
    the region between them. -/
theorem chosen_iff (tokens : opening ≠ [] ∨ closing ≠ []) (t before last after : Text) (parts : List (Text × Text)) :
    Layout.Chosen opening closing t ⟨before, parts ++ [(last, after)]⟩ ↔
      IsMarkup opening closing t before (joined opening closing parts ++ last) after ∧
        Parted opening closing (joined opening closing parts ++ last) parts last := by
  have text_eq : Layout.text opening closing ⟨before, parts ++ [(last, after)]⟩ =
      before ++ opening ++ (joined opening closing parts ++ last) ++ closing ++ after := by
    rw [← List.append_assoc (before ++ opening), ← text_opening]
    simp [Layout.text]
  have after_eq : Layout.after ⟨before, parts ++ [(last, after)]⟩ = after := by simp [Layout.after]
  have iff := parted_iff tokens parts (before ++ opening) last (closing ++ after) after
  rw [← List.append_assoc] at iff
  constructor
  · rintro ⟨split, -, first, final, next, inside⟩
    rw [text_eq] at split
    rw [after_eq] at final
    refine ⟨⟨split, first, final⟩, iff.mpr ⟨?_, inside⟩⟩
    intro front e l e' l' rest pairs
    rw [← split, ← text_opening]
    exact next front e l e' l' rest pairs
  · rintro ⟨⟨split, first, final⟩, parted⟩
    obtain ⟨between, inside⟩ := iff.mp parted
    refine ⟨split.trans text_eq.symm, by simp, first, by rw [after_eq]; exact final, ?_, inside⟩
    intro front e l e' l' rest pairs
    rw [text_opening, split]
    exact between front e l e' l' rest pairs

theorem Layout.Chosen.unique (tokens : opening ≠ [] ∨ closing ≠ []) {t : Text} {d d' : Layout}
    (one : d.Chosen opening closing t) (other : d'.Chosen opening closing t) : d = d' := by
  obtain ⟨before, parts⟩ := d
  obtain ⟨before', parts'⟩ := d'
  rcases List.eq_nil_or_concat parts with rfl | ⟨parts, ⟨last, after⟩, rfl⟩
  · exact absurd rfl one.nonempty
  rcases List.eq_nil_or_concat parts' with rfl | ⟨parts', ⟨last', after'⟩, rfl⟩
  · exact absurd rfl other.nonempty
  rw [List.concat_eq_append] at one other ⊢
  rw [List.concat_eq_append]
  obtain ⟨markup, parted⟩ := (chosen_iff tokens t before last after parts).mp one
  obtain ⟨markup', parted'⟩ := (chosen_iff tokens t before' last' after' parts').mp other
  obtain ⟨rfl, region, rfl⟩ := markup.unique markup'
  rw [← region] at parted'
  obtain ⟨rfl, rfl⟩ := parted.unique parted'
  rfl

/-- A text with markup has a chosen layout, and scanning gives its segments. -/
theorem chosen_of_scan_eq_some (tokens : opening ≠ [] ∨ closing ≠ []) {t : Text} {segments : List Segment}
    (found : scan opening closing t = some segments) :
    ∃ d : Layout, d.Chosen opening closing t ∧ segments = d.segments := by
  obtain ⟨m, markup, rfl⟩ := Option.map_eq_some_iff.mp found
  have isMarkup := isMarkup_of_markup?_eq_some markup
  obtain ⟨parts, last, parted, region⟩ := splitRegion_parted tokens m.region
  have region_eq := parted.region_eq
  rw [region_eq] at parted isMarkup
  refine ⟨⟨m.before, parts ++ [(last, m.after)]⟩, (chosen_iff tokens t _ _ _ _).mpr ⟨isMarkup, parted⟩, ?_⟩
  rw [region, Layout.segments, segmentsOf_append]
  simp [segmentsOf]

/-! ## Literals are no markup -/

/-- No opening token with a closing token after it stands where no opening token
    begins. -/
theorem unmarked_of_no_opening (tokens : opening ≠ [] ∨ closing ≠ []) {t x l y : Text} (split : t = x ++ l ++ y)
    (none : ∀ k, StandsAt opening t k → x.length ≤ k → (x ++ l).length ≤ k) :
    ¬ ∃ a b c, l = a ++ opening ++ b ++ closing ++ c := by
  rintro ⟨a, b, c, rfl⟩
  have whole : t = (x ++ a) ++ opening ++ (b ++ closing ++ c ++ y) := by rw [split]; simp
  have := none (x ++ a).length (standsAt_of_eq whole) (by simp)
  simp only [List.length_append] at this
  rcases tokens with nonempty | nonempty <;> have := List.length_pos_iff.mpr nonempty <;> omega

theorem mem_segments {d : Layout} {l : Text} (member : .literal l ∈ d.segments) :
    l = d.before ∨ ∃ e, (e, l) ∈ d.parts := by
  rcases List.mem_append.mp member with before | within
  · rw [literal?] at before
    split at before
    · cases before
    · exact .inl (Segment.literal.inj (List.mem_singleton.mp before))
  · obtain ⟨⟨e, l'⟩, pair, member⟩ := List.mem_flatMap.mp within
    rcases List.mem_append.mp member with expression | literal
    · rw [expression?] at expression
      split at expression <;> simp at expression
    · rw [literal?] at literal
      split at literal
      · cases literal
      · obtain rfl := Segment.literal.inj (List.mem_singleton.mp literal)
        exact .inr ⟨e, pair⟩

theorem Layout.Chosen.literal_unmarked (tokens : opening ≠ [] ∨ closing ≠ []) {t l : Text} {d : Layout}
    (chosen : d.Chosen opening closing t) (member : .literal l ∈ d.segments) :
    ¬ ∃ a b c, l = a ++ opening ++ b ++ closing ++ c := by
  rcases mem_segments member with rfl | ⟨e, pair⟩
  · have split : t = [] ++ d.before ++ d.parts.flatMap fun (e, l) => opening ++ e ++ closing ++ l := chosen.text_eq
    exact unmarked_of_no_opening tokens split fun k stands _ => chosen.first_opening k stands
  · obtain ⟨front, rest, split⟩ := List.append_of_mem pair
    cases rest with
    | nil =>
      have after : d.after = l := by simp [Layout.after, split]
      rintro ⟨a, b, c, rfl⟩
      have whole : t =
          (Layout.text opening closing ⟨d.before, front⟩ ++ opening ++ e ++ closing ++ a ++ opening ++ b) ++
            closing ++ c := by
        rw [chosen.text_eq, Layout.text, split]; simp [Layout.text]
      have := chosen.last_closing _ (standsAt_of_eq whole)
      rw [after, whole] at this
      simp only [List.length_append] at this
      rcases tokens with nonempty | nonempty <;> have := List.length_pos_iff.mpr nonempty <;> omega
    | cons next rest =>
      obtain ⟨e', l'⟩ := next
      have next := chosen.next front e l e' l' rest split
      have whole : t = (Layout.text opening closing ⟨d.before, front⟩ ++ opening ++ e ++ closing) ++ l ++
          (opening ++ e' ++ closing ++ l' ++ rest.flatMap fun (e, l) => opening ++ e ++ closing ++ l) := by
        rw [chosen.text_eq, Layout.text, split]; simp [Layout.text]
      exact unmarked_of_no_opening tokens whole next.nearest

/-- Literals of a text are not scanned again. -/
theorem scan_literal {t l : Text} {segments : List Segment} (tokens : opening ≠ [] ∨ closing ≠ [])
    (found : scan opening closing t = some segments) (inside : .literal l ∈ segments) :
    scan opening closing l = none := by
  obtain ⟨d, chosen, rfl⟩ := chosen_of_scan_eq_some tokens found
  rw [scan, Option.map_eq_none_iff, markup?_eq_none_iff]
  exact chosen.literal_unmarked tokens inside

/-- Whatever the tokens are, there is no segment in the empty text. -/
theorem scan_nil {segments : List Segment} (found : scan opening closing [] = some segments) : segments = [] := by
  have region : splitRegion opening closing [] = [] := by
    unfold splitRegion
    split
    · rfl
    · rw [if_neg (by simp)]
      rfl
  obtain ⟨m, markup, rfl⟩ := Option.map_eq_some_iff.mp found
  obtain ⟨start, _, rest⟩ := Option.bind_eq_some_iff.mp markup
  obtain ⟨stop, _, cut⟩ := Option.bind_eq_some_iff.mp rest
  split at cut
  · cases cut
  · cases cut
    simp [region, literal?]

/-! ## Scanning -/

/-- Scanning fails exactly on texts without an opening token and a closing one
    after it. Any other text has exactly one chosen layout; scanning gives its
    segments, and no literal among them is markup again. -/
theorem scan_gives_chosen_layout (tokens : opening ≠ [] ∨ closing ≠ []) (t : Text) :
    (scan opening closing t = none ↔ ¬ ∃ a b c, t = a ++ opening ++ b ++ closing ++ c) ∧
      ∀ segments, scan opening closing t = some segments →
        (∃ d : Layout, d.Chosen opening closing t ∧ segments = d.segments ∧
          ∀ d' : Layout, d'.Chosen opening closing t → d' = d) ∧
        ∀ l, .literal l ∈ segments → scan opening closing l = none := by
  have none_iff : ∀ t, scan opening closing t = none ↔ ¬ ∃ a b c, t = a ++ opening ++ b ++ closing ++ c := by
    intro t
    rw [scan, Option.map_eq_none_iff, markup?_eq_none_iff]
  refine ⟨none_iff t, fun segments found => ?_⟩
  obtain ⟨d, chosen, rfl⟩ := chosen_of_scan_eq_some tokens found
  refine ⟨⟨d, chosen, rfl, fun d' other => other.unique tokens chosen⟩, fun l member => ?_⟩
  exact (none_iff l).mpr (chosen.literal_unmarked tokens member)

/-- Equal tokens, with a closing token that overlaps the last opening one. -/
theorem scan_gives_chosen_layout_percent :
    (lit "%%" ≠ [] ∨ lit "%%" ≠ []) ∧
      scan (lit "%%") (lit "%%") (lit "l%%a%%%b%%c%%d%%%") =
        some [.literal (lit "l"), .expression (lit "a%%%b"), .literal (lit "c"), .expression (lit "d%")] ∧
      ∃ d : Layout, d.Chosen (lit "%%") (lit "%%") (lit "l%%a%%%b%%c%%d%%%") ∧
        d.segments = [.literal (lit "l"), .expression (lit "a%%%b"), .literal (lit "c"), .expression (lit "d%")] := by
  have tokens : lit "%%" ≠ [] ∨ lit "%%" ≠ [] := by decide
  have found : scan (lit "%%") (lit "%%") (lit "l%%a%%%b%%c%%d%%%") =
      some [.literal (lit "l"), .expression (lit "a%%%b"), .literal (lit "c"), .expression (lit "d%")] := by cbv
  obtain ⟨⟨d, chosen, segments, -⟩, -⟩ := (scan_gives_chosen_layout tokens _).2 _ found
  exact ⟨tokens, found, d, chosen, segments.symm⟩

end Bindmark.Segment
