import Bindmark.Proofs.Scanning
import Mathlib.Data.List.Basic

/-!
# Scanning rendered text

Literals and expressions are rendered by setting each expression between the
tokens. When no character of a token stands in a piece or in the other token,
no token stands across a boundary, so the layout that was rendered is the one
its text chooses: scanning gives back the pieces, without the empty ones.
-/

namespace Bindmark.Text

/-! ## Tokens and text without their characters -/

/-- No character of a token that stands in a text lies in a part of it that has
    none of the token's characters. -/
theorem StandsAt.beside {p x m y : Text} {i j : Nat} (stands : StandsAt p (x ++ m ++ y) i) (clear : p.Disjoint m)
    (within : j < p.length) : i + j < x.length ∨ (x ++ m).length ≤ i + j := by
  by_contra inside
  rw [not_or, Nat.not_lt, Nat.not_le] at inside
  obtain ⟨before, after, split, rfl⟩ := stands
  have inToken : (x ++ m ++ y)[before.length + j]? = some p[j] := by
    rw [split, List.append_assoc, List.getElem?_append_right (by omega), Nat.add_sub_cancel_left,
      List.getElem?_append_left within, List.getElem?_eq_getElem within]
  have inPart : (x ++ m ++ y)[before.length + j]? = m[before.length + j - x.length]? := by
    rw [List.getElem?_append_left inside.2, List.getElem?_append_right inside.1]
  exact clear (List.getElem_mem within) (List.mem_of_getElem? (inPart.symm.trans inToken))

/-- Such a token begins before the part or after it. -/
theorem StandsAt.begins_beside {p x m y : Text} {i : Nat} (stands : StandsAt p (x ++ m ++ y) i)
    (nonempty : p ≠ []) (clear : p.Disjoint m) : i < x.length ∨ (x ++ m).length ≤ i :=
  stands.beside clear (List.length_pos_iff.mpr nonempty)

/-- Such a token ends before the part or after it. -/
theorem StandsAt.ends_beside {p x m y : Text} {i : Nat} (stands : StandsAt p (x ++ m ++ y) i)
    (nonempty : p ≠ []) (clear : p.Disjoint m) : i + p.length ≤ x.length ∨ (x ++ m).length < i + p.length := by
  have positive := List.length_pos_iff.mpr nonempty
  have := stands.beside clear (Nat.sub_lt positive Nat.one_pos)
  omega

end Bindmark.Text

namespace Bindmark.Segment
open Text (StandsAt)

variable {opening closing : Text} {d : Layout}

/-! ## Pieces -/

/-- The literals and expressions of a layout in order, with the empty ones. -/
def Layout.pieces (d : Layout) : List Segment :=
  .literal d.before :: d.parts.flatMap fun (e, l) => [.expression e, .literal l]

/-- The segments of a layout are its pieces without the empty ones. -/
theorem Layout.segments_eq_filter (d : Layout) : d.segments = d.pieces.filter fun piece => !piece.text.isEmpty := by
  have one : ∀ e l : Text, expression? e ++ literal? l =
      [Segment.expression e, .literal l].filter fun piece => !piece.text.isEmpty := by
    intro e l
    cases e <;> cases l <;> rfl
  have first : literal? d.before = [Segment.literal d.before].filter fun piece => !piece.text.isEmpty := by
    cases d.before <;> rfl
  rw [segments, segmentsOf, pieces, ← List.singleton_append, List.filter_append, ← first, List.filter_flatMap]
  simp only [one]

/-- No piece of a layout has a character of a text. -/
def Layout.Clear (p : Text) (d : Layout) : Prop := ∀ piece ∈ d.pieces, p.Disjoint piece.text

theorem Layout.Clear.before {p : Text} (clear : d.Clear p) : p.Disjoint d.before :=
  clear (.literal d.before) List.mem_cons_self

theorem Layout.Clear.part {p e l : Text} (clear : d.Clear p) (member : (e, l) ∈ d.parts) :
    p.Disjoint e ∧ p.Disjoint l := by
  have inside : ∀ piece ∈ [Segment.expression e, .literal l], p.Disjoint piece.text := fun piece own =>
    clear piece (List.mem_cons_of_mem _ (List.mem_flatMap.mpr ⟨_, member, own⟩))
  exact ⟨inside (.expression e) (by simp), inside (.literal l) (by simp)⟩

/-! ## The rendered layout is the chosen one -/

/-- Between two rendered expressions the text closes and opens where it was
    rendered to. -/
theorem next_of_clear (opens : opening ≠ []) (closes : closing ≠ []) (apart : closing.Disjoint opening)
    {t u l e rest : Text} (split : t = u ++ closing ++ (l ++ opening ++ e) ++ rest)
    (openingClear : opening.Disjoint l) (closingClear : closing.Disjoint l ∧ closing.Disjoint e) :
    Next opening closing t u l e := by
  have closesBeside : closing.Disjoint (l ++ opening ++ e) := by
    rw [List.disjoint_append_right, List.disjoint_append_right]
    exact ⟨⟨closingClear.1, apart⟩, closingClear.2⟩
  refine ⟨?_, ?_⟩
  · rintro i ⟨stands, k, -, left, right⟩
    rw [split] at stands
    have := stands.ends_beside closes closesBeside
    simp only [List.length_append] at this right
    omega
  · intro k stands after
    have literal : t = (u ++ closing) ++ l ++ (opening ++ e ++ rest) := by rw [split]; simp
    rw [literal] at stands
    have := stands.begins_beside opens openingClear
    omega

/-- A text that ends with a literal has its last closing token before it. -/
theorem last_closing_of_clear (closes : closing ≠ []) {x l : Text} {i : Nat} (clear : closing.Disjoint l)
    (stands : StandsAt closing (x ++ l) i) : i + closing.length + l.length ≤ (x ++ l).length := by
  have bound := stands.bound
  rw [← List.append_nil (x ++ l)] at stands
  have := stands.ends_beside closes clear
  rw [List.length_append] at *
  omega

theorem Layout.text_snoc (before : Text) (parts : List (Text × Text)) (e l : Text) :
    Layout.text opening closing ⟨before, parts ++ [(e, l)]⟩ =
      Layout.text opening closing ⟨before, parts⟩ ++ opening ++ e ++ closing ++ l := by
  simp [Layout.text]

/-- A layout whose pieces are clear of both tokens is the one that its text
    chooses. -/
theorem Layout.Clear.chosen (opens : opening ≠ []) (closes : closing ≠ []) (apart : opening.Disjoint closing)
    (nonempty : d.parts ≠ []) (clear : d.Clear opening ∧ d.Clear closing) :
    d.Chosen opening closing (d.text opening closing) where
  text_eq := rfl
  nonempty := nonempty
  first_opening i stands := by
    have := stands.begins_beside (x := []) opens clear.1.before
    simpa using this
  last_closing i stands := by
    obtain ⟨before, parts⟩ := d
    obtain ⟨parts, ⟨e, l⟩, rfl⟩ := List.eq_nil_or_concat parts |>.resolve_left nonempty
    have after : Layout.after ⟨before, parts.concat (e, l)⟩ = l := by simp [Layout.after]
    rw [List.concat_eq_append] at *
    rw [text_snoc] at stands ⊢
    rw [after]
    have last : (e, l) ∈ parts ++ [(e, l)] := List.mem_append_right _ List.mem_cons_self
    exact last_closing_of_clear closes (clear.2.part last).2 stands
  next front e l e' l' rest split := by
    have here := clear.1.part (e := e) (l := l) (by simp [split])
    have closingHere := clear.2.part (e := e) (l := l) (by simp [split])
    have closingThere := clear.2.part (e := e') (l := l') (by simp [split])
    have whole : d.text opening closing = (Layout.text opening closing ⟨d.before, front⟩ ++ opening ++ e) ++ closing ++
        (l ++ opening ++ e') ++ (closing ++ l' ++ rest.flatMap fun (e, l) => opening ++ e ++ closing ++ l) := by
      simp [Layout.text, split]
    exact next_of_clear opens closes (List.disjoint_comm.mp apart) whole here.2 ⟨closingHere.2, closingThere.1⟩
  inside e l member := by
    -- A closing token in an expression would bring its first character along.
    rintro ⟨a, b, c, rfl⟩
    obtain ⟨c, rest, rfl⟩ := List.exists_cons_of_ne_nil closes
    exact (clear.2.part member).1 List.mem_cons_self (by simp)

/-! ## Scanning -/

/-- Scanning undoes rendering: expressions rendered between tokens, with
    literals before, between and after them, are found again with those
    literals, in order and without the empty ones. -/
theorem scan_layout_text (opens : opening ≠ []) (closes : closing ≠ []) (apart : opening.Disjoint closing)
    (d : Layout) (nonempty : d.parts ≠ []) (clear : d.Clear opening ∧ d.Clear closing) :
    scan opening closing (d.text opening closing) =
      some (d.pieces.filter fun piece => !piece.text.isEmpty) := by
  have tokens : opening ≠ [] ∨ closing ≠ [] := .inl opens
  have chosen := Layout.Clear.chosen opens closes apart nonempty clear
  have marked : ∃ a b c, d.text opening closing = a ++ opening ++ b ++ closing ++ c := by
    obtain ⟨⟨e, l⟩, parts, split⟩ := List.exists_cons_of_ne_nil nonempty
    exact ⟨d.before, e, l ++ parts.flatMap fun (e, l) => opening ++ e ++ closing ++ l, by simp [Layout.text, split]⟩
  obtain ⟨segments, found⟩ : ∃ segments, scan opening closing (d.text opening closing) = some segments := by
    cases found : scan opening closing (d.text opening closing) with
    | some segments => exact ⟨segments, rfl⟩
    | none => exact absurd marked (markup?_eq_none_iff.mp (Option.map_eq_none_iff.mp found))
  obtain ⟨d', chosen', rfl⟩ := chosen_of_scan_eq_some tokens found
  rw [found, chosen'.unique tokens chosen, d.segments_eq_filter]

/-- Next to each other and empty: an expression, an empty literal, an empty
    expression, a literal, and an empty expression at the end. -/
theorem scan_layout_text_adjacent :
    (lit "<<" ≠ [] ∧ lit ">>>" ≠ [] ∧ (lit "<<").Disjoint (lit ">>>")) ∧
      Layout.text (lit "<<") (lit ">>>") ⟨[], [(lit "a", []), ([], lit "b"), ([], [])]⟩ =
        lit "<<a>>><<>>>b<<>>>" ∧
      scan (lit "<<") (lit ">>>") (lit "<<a>>><<>>>b<<>>>") = some [.expression (lit "a"), .literal (lit "b")] := by
  have apart : (lit "<<").Disjoint (lit ">>>") := by simp [lit, List.disjoint_left]
  have clear : ∀ p ∈ [lit "<<", lit ">>>"], Layout.Clear p ⟨[], [(lit "a", []), ([], lit "b"), ([], [])]⟩ := by
    simp [Layout.Clear, Layout.pieces, Segment.text, lit, List.disjoint_left]
  refine ⟨⟨by decide, by decide, apart⟩, by decide, ?_⟩
  exact scan_layout_text (by decide) (by decide) apart ⟨[], [(lit "a", []), ([], lit "b"), ([], [])]⟩ (by decide)
    ⟨clear _ (by simp), clear _ (by simp)⟩

end Bindmark.Segment
