import Bindmark.Text.Basic
import Mathlib.Tactic.Common

/-!
# Occurrences

Where one text stands in another: `indexOf?` gives the first such position and
`lastIndexOf?` the last one. Positions in a part of a text are positions in
the whole text. A text is taken off the start of another with `dropLeading?`.
-/

namespace Bindmark.Text

/-- `p` stands in `t` at the position `i`. -/
def StandsAt (p t : Text) (i : Nat) : Prop := ∃ before after, t = before ++ p ++ after ∧ before.length = i

/-! ## Positions -/

theorem standsAt_zero {p t : Text} : StandsAt p t 0 ↔ p <+: t := by
  constructor
  · rintro ⟨before, after, rfl, none⟩
    rw [List.length_eq_zero_iff] at none
    subst none
    exact ⟨after, rfl⟩
  · rintro ⟨after, rfl⟩
    exact ⟨[], after, rfl, rfl⟩

theorem standsAt_succ {p t : Text} {c : Char} {i : Nat} : StandsAt p (c :: t) (i + 1) ↔ StandsAt p t i := by
  constructor
  · rintro ⟨before, after, split, length⟩
    cases before with
    | nil => simp at length
    | cons d before =>
      simp only [List.cons_append, List.cons.injEq] at split
      exact ⟨before, after, split.2, by simpa using length⟩
  · rintro ⟨before, after, rfl, rfl⟩
    exact ⟨c :: before, after, rfl, rfl⟩

theorem StandsAt.bound {p t : Text} {i : Nat} (stands : StandsAt p t i) : i + p.length ≤ t.length := by
  obtain ⟨before, after, rfl, rfl⟩ := stands
  simp only [List.length_append]
  omega

theorem standsAt_nil {p : Text} {i : Nat} : StandsAt p [] i ↔ p = [] ∧ i = 0 := by
  constructor
  · intro stands
    have bound := stands.bound
    simp only [List.length_nil] at bound
    exact ⟨List.length_eq_zero_iff.mp (by omega), by omega⟩
  · rintro ⟨rfl, rfl⟩
    exact ⟨[], [], rfl, rfl⟩

/-- Where a text stands that is known by what is around it. -/
theorem standsAt_of_eq {p t before after : Text} (split : t = before ++ p ++ after) : StandsAt p t before.length :=
  ⟨before, after, split, rfl⟩

theorem StandsAt.append_right {p t : Text} {i : Nat} (stands : StandsAt p t i) (y : Text) :
    StandsAt p (t ++ y) i := by
  obtain ⟨before, after, rfl, rfl⟩ := stands
  exact ⟨before, after ++ y, by simp, rfl⟩

theorem StandsAt.append_left {p t : Text} {i : Nat} (stands : StandsAt p t i) (x : Text) :
    StandsAt p (x ++ t) (x.length + i) := by
  obtain ⟨before, after, rfl, rfl⟩ := stands
  exact ⟨x ++ before, after, by simp, by simp⟩

/-- What stands in a text and ends before `y` stands in the part before `y`. -/
theorem StandsAt.of_append_right {p t y : Text} {i : Nat} (stands : StandsAt p (t ++ y) i)
    (fits : i + p.length ≤ t.length) : StandsAt p t i := by
  obtain ⟨before, after, split, rfl⟩ := stands
  have whole : before ++ p <+: t ++ y := ⟨after, split.symm⟩
  obtain ⟨rest, part⟩ := List.prefix_of_prefix_length_le whole (List.prefix_append t y) (by simpa using fits)
  exact ⟨before, rest, part.symm, rfl⟩

/-- What stands in a text and begins after `x` stands in the part after `x`. -/
theorem StandsAt.of_append_left {p t x : Text} {i : Nat} (stands : StandsAt p (x ++ t) (x.length + i)) :
    StandsAt p t i := by
  induction x with
  | nil => simpa using stands
  | cons c x ih =>
    apply ih
    rw [List.cons_append, List.length_cons, show x.length + 1 + i = x.length + i + 1 by omega] at stands
    exact standsAt_succ.mp stands

/-- A text that stands between `x` and `y`, in positions of the whole text. -/
theorem StandsAt.inside {p t x y : Text} {i : Nat} (stands : StandsAt p (x ++ t ++ y) i) (low : x.length ≤ i)
    (high : i + p.length ≤ (x ++ t).length) : StandsAt p t (i - x.length) := by
  have left := stands.of_append_right high
  rw [show i = x.length + (i - x.length) by omega] at left
  exact left.of_append_left

/-! ## The first and the last position -/

theorem indexOf?_eq_some {p t : Text} {i : Nat} (found : indexOf? p t = some i) :
    StandsAt p t i ∧ ∀ j, StandsAt p t j → i ≤ j := by
  induction t generalizing i with
  | nil =>
    simp only [indexOf?, List.isEmpty_iff] at found
    split at found
    · rename_i empty
      cases found
      exact ⟨standsAt_nil.mpr ⟨empty, rfl⟩, fun j _ => Nat.zero_le j⟩
    · cases found
  | cons c t ih =>
    simp only [indexOf?] at found
    split at found
    · rename_i here
      cases found
      exact ⟨standsAt_zero.mpr (List.isPrefixOf_iff_prefix.mp here), fun j _ => Nat.zero_le j⟩
    · rename_i elsewhere
      obtain ⟨k, rest, rfl⟩ := Option.map_eq_some_iff.mp found
      obtain ⟨stands, first⟩ := ih rest
      refine ⟨standsAt_succ.mpr stands, fun j later => ?_⟩
      cases j with
      | zero => exact absurd (List.isPrefixOf_iff_prefix.mpr (standsAt_zero.mp later)) elsewhere
      | succ j => exact Nat.succ_le_succ (first j (standsAt_succ.mp later))

theorem indexOf?_eq_none {p t : Text} (missing : indexOf? p t = none) (i : Nat) : ¬ StandsAt p t i := by
  induction t generalizing i with
  | nil =>
    simp only [indexOf?, List.isEmpty_iff] at missing
    split at missing
    · cases missing
    · rename_i nonempty
      exact fun stands => nonempty (standsAt_nil.mp stands).1
  | cons c t ih =>
    simp only [indexOf?] at missing
    split at missing
    · cases missing
    · rename_i elsewhere
      intro stands
      cases i with
      | zero => exact elsewhere (List.isPrefixOf_iff_prefix.mpr (standsAt_zero.mp stands))
      | succ i => exact ih (Option.map_eq_none_iff.mp missing) i (standsAt_succ.mp stands)

theorem lastIndexOf?_eq_none {p t : Text} (missing : lastIndexOf? p t = none) (i : Nat) : ¬ StandsAt p t i := by
  induction t generalizing i with
  | nil =>
    simp only [lastIndexOf?, List.isEmpty_iff] at missing
    split at missing
    · cases missing
    · rename_i nonempty
      exact fun stands => nonempty (standsAt_nil.mp stands).1
  | cons c t ih =>
    simp only [lastIndexOf?] at missing
    split at missing
    · cases missing
    · rename_i later
      split at missing
      · cases missing
      · rename_i elsewhere
        intro stands
        cases i with
        | zero => exact elsewhere (List.isPrefixOf_iff_prefix.mpr (standsAt_zero.mp stands))
        | succ i => exact ih later i (standsAt_succ.mp stands)

theorem lastIndexOf?_eq_some {p t : Text} {i : Nat} (found : lastIndexOf? p t = some i) :
    StandsAt p t i ∧ ∀ j, StandsAt p t j → j ≤ i := by
  induction t generalizing i with
  | nil =>
    simp only [lastIndexOf?, List.isEmpty_iff] at found
    split at found
    · rename_i empty
      cases found
      exact ⟨standsAt_nil.mpr ⟨empty, rfl⟩, fun j stands => Nat.le_of_eq (standsAt_nil.mp stands).2⟩
    · cases found
  | cons c t ih =>
    simp only [lastIndexOf?] at found
    split at found
    · rename_i k later
      cases found
      obtain ⟨stands, last⟩ := ih later
      refine ⟨standsAt_succ.mpr stands, fun j other => ?_⟩
      cases j with
      | zero => omega
      | succ j => exact Nat.succ_le_succ (last j (standsAt_succ.mp other))
    · rename_i missing
      split at found
      · rename_i here
        cases found
        refine ⟨standsAt_zero.mpr (List.isPrefixOf_iff_prefix.mp here), fun j other => ?_⟩
        cases j with
        | zero => exact Nat.le_refl 0
        | succ j => exact absurd (standsAt_succ.mp other) (lastIndexOf?_eq_none missing j)
      · cases found

/-- The last place of a character that does not come again. -/
theorem lastIndexOf?_append_cons {c : Char} {before after : Text} (last : c ∉ after) :
    lastIndexOf? [c] (before ++ c :: after) = some before.length := by
  have missing : lastIndexOf? [c] after = none := by
    cases found : lastIndexOf? [c] after with
    | none => rfl
    | some i =>
      obtain ⟨⟨front, back, rfl, -⟩, -⟩ := lastIndexOf?_eq_some found
      exact absurd (by simp) last
  induction before with
  | nil => simp [lastIndexOf?, missing]
  | cons d before ih => simp [lastIndexOf?, ih]

/-! ## Texts at the start -/

theorem dropLeading?_append (p t : Text) : dropLeading? p (p ++ t) = some t := by
  induction p with
  | nil => simp [dropLeading?]
  | cons c p ih => simpa [dropLeading?] using ih

theorem dropLeading?_eq_some {p t rest : Text} (found : dropLeading? p t = some rest) : t = p ++ rest := by
  fun_induction dropLeading? p t with
  | case1 t => cases found; rfl
  | case2 => cases found
  | case3 c p t ih => rw [ih found, List.cons_append]
  | case4 => cases found

end Bindmark.Text
