import Bindmark.Pair.Basic
import Bindmark.Proofs.Trimming
import Mathlib.Tactic.Common

/-!
# Units of directive strings

Where a directive string is cut. A separator counts when the text before it is
closed (`TopLevel`): everything that was opened has been closed again, whatever
mix of quotes, escapes and brackets it is. A closed text can therefore be split
on its own, and a unit is cut at its first top-level colon.
-/

namespace Bindmark

theorem Text.join_cons (separator u : Text) {ts : List Text} (some_ : ts ≠ []) :
    Text.join separator (u :: ts) = u ++ separator ++ Text.join separator ts := by
  obtain ⟨v, rest, rfl⟩ := List.exists_cons_of_ne_nil some_
  rfl

namespace Reading

/-! ## Reading on -/

@[simp] theorem read_nil (r : Reading) : r.read [] = r := rfl

@[simp] theorem read_cons (r : Reading) (c : Char) (t : Text) : r.read (c :: t) = (r.step c).read t := rfl

theorem read_append (r : Reading) (s t : Text) : r.read (s ++ t) = (r.read s).read t := List.foldl_append

theorem Closed.append {s t : Text} (hs : Closed s) (ht : Closed t) : Closed (s ++ t) := by
  rw [Closed, read_append, hs, ht]

/-- A closing bracket that closes nothing leaves a text closed. -/
theorem Closed.stray {t : Text} (closed : Closed t) {c : Char} (stray : c ∈ closers) : Closed (t ++ [c]) := by
  have alone : ∀ c ∈ closers, top.step c = top := by simp [closers, openers, quotes, step]
  rw [Closed, read_append, closed]
  exact alone c stray

/-- Within quotes whose mark does not come again, a reader stays within them. -/
theorem read_quoted {mark : Char} {t : Text} (missing : mark ∉ t) (depth : Nat) (escaped : Bool) :
    ∃ escaped', (quoted depth mark escaped).read t = quoted depth mark escaped' := by
  induction t generalizing escaped with
  | nil => exact ⟨escaped, rfl⟩
  | cons c t ih =>
    obtain ⟨other, missing⟩ := not_or.mp (mt List.mem_cons.mpr missing)
    cases escaped with
    | true => exact ih missing false
    | false =>
      by_cases escape : c = '\\'
      · simpa [step, escape] using ih missing true
      · simpa [step, escape, Ne.symm other] using ih missing false

/-- How deep in brackets a reader is. -/
def depth : Reading → Nat
  | .code depth => depth
  | .quoted depth _ _ => depth

theorem depth_le_step (r : Reading) {c : Char} (unclosed : c ∉ closers) : r.depth ≤ (r.step c).depth := by
  rcases r with depth | ⟨depth, mark, _ | _⟩
  · rw [step]
    split_ifs <;> simp [Reading.depth]
  · rw [step]
    split_ifs <;> simp [Reading.depth]
  · simp [step, Reading.depth]

/-- Without closing brackets a reader does not come out of any. -/
theorem depth_le_read (r : Reading) {t : Text} (unclosed : ∀ c ∈ t, c ∉ closers) :
    r.depth ≤ (r.read t).depth := by
  induction t generalizing r with
  | nil => exact Nat.le_refl _
  | cons c t ih =>
    calc r.depth ≤ (r.step c).depth := depth_le_step r (unclosed c (by simp))
      _ ≤ ((r.step c).read t).depth := ih _ fun d member => unclosed d (by simp [member])

/-- A text is not closed after a quote whose mark does not come again. -/
theorem Closed.not_quote {a t : Text} {mark : Char} (closed : Closed a) (quote : mark ∈ quotes) (missing : mark ∉ t) :
    ¬ Closed (a ++ mark :: t) := by
  have opens : top.step mark = quoted 0 mark false := by simp [step, quote]
  obtain ⟨escaped, stays⟩ := read_quoted missing 0 false
  rw [Closed, read_append, closed, read_cons, opens, stays]
  simp

/-- A text is not closed after an opening bracket that no bracket closes. -/
theorem Closed.not_opener {a t : Text} {bracket : Char} (closed : Closed a) (opener : bracket ∈ openers)
    (unclosed : ∀ c ∈ t, c ∉ closers) : ¬ Closed (a ++ bracket :: t) := by
  have opens : ∀ c ∈ openers, top.step c = code 1 := by simp [openers, quotes, step]
  have deep := depth_le_read (code 1) unclosed
  rw [Closed, read_append, closed, read_cons, opens bracket opener]
  intro isTop
  rw [isTop] at deep
  simp [depth] at deep

/-! ## Separators that count -/

/-- A character stands in a text outside quotes and brackets. -/
def TopLevel (c : Char) (t : Text) : Prop := ∃ a b, t = a ++ c :: b ∧ Closed a

/-- A text before and after the first separator outside quotes and brackets. -/
structure FirstCut (separator : Char) (t before after : Text) : Prop where
  split : t = before ++ separator :: after
  closed : Closed before
  first : ¬ TopLevel separator before

theorem cutAt?_eq_none_iff (separator : Char) (r : Reading) (t : Text) :
    cutAt? separator r t = none ↔ ∀ a b, t = a ++ separator :: b → r.read a ≠ top := by
  induction t generalizing r with
  | nil => simp [cutAt?]
  | cons c t ih =>
    rw [cutAt?]
    by_cases here : r = top ∧ c = separator
    · rw [if_pos here]
      refine ⟨by simp, fun none => absurd here.1 (none [] t (by rw [here.2]; rfl))⟩
    · rw [if_neg here, Option.map_eq_none_iff, ih]
      constructor
      · intro none a b split
        cases a with
        | nil =>
          obtain ⟨rfl, rfl⟩ := List.cons.inj split
          exact fun isTop => here ⟨isTop, rfl⟩
        | cons d a =>
          obtain ⟨rfl, rfl⟩ := List.cons.inj split
          exact none a b rfl
      · intro none a b split
        exact none (c :: a) b (by rw [split]; rfl)

theorem cutAt?_eq_some {separator : Char} {r : Reading} {t before after : Text}
    (found : cutAt? separator r t = some (before, after)) :
    t = before ++ separator :: after ∧ r.read before = top ∧
      ∀ a b, before = a ++ separator :: b → r.read a ≠ top := by
  induction t generalizing r before with
  | nil => cases found
  | cons c t ih =>
    rw [cutAt?] at found
    by_cases here : r = top ∧ c = separator
    · rw [if_pos here] at found
      cases found
      exact ⟨by rw [here.2]; rfl, here.1, by simp⟩
    · rw [if_neg here] at found
      obtain ⟨⟨before, rest⟩, later, pair⟩ := Option.map_eq_some_iff.mp found
      cases pair
      obtain ⟨rfl, closed, first⟩ := ih later
      refine ⟨rfl, closed, fun a b split => ?_⟩
      cases a with
      | nil =>
        obtain ⟨rfl, rfl⟩ := List.cons.inj split
        exact fun isTop => here ⟨isTop, rfl⟩
      | cons d a =>
        obtain ⟨rfl, rfl⟩ := List.cons.inj split
        exact first a b rfl

theorem cutAt?_top_eq_none_iff {separator : Char} {t : Text} :
    cutAt? separator top t = none ↔ ¬ TopLevel separator t := by
  rw [cutAt?_eq_none_iff]
  exact ⟨fun none ⟨a, b, split, closed⟩ => none a b split closed, fun none a b split closed =>
    none ⟨a, b, split, closed⟩⟩

theorem firstCut_of_cutAt? {separator : Char} {t before after : Text}
    (found : cutAt? separator top t = some (before, after)) : FirstCut separator t before after := by
  obtain ⟨split, closed, first⟩ := cutAt?_eq_some found
  exact ⟨split, closed, fun ⟨a, b, split, closed⟩ => first a b split closed⟩

theorem exists_firstCut {separator : Char} {t : Text} (found : TopLevel separator t) :
    ∃ before after, FirstCut separator t before after := by
  cases cut : cutAt? separator top t with
  | none => exact absurd found (cutAt?_top_eq_none_iff.mp cut)
  | some parts => exact ⟨parts.1, parts.2, firstCut_of_cutAt? cut⟩

theorem FirstCut.unique {separator : Char} {t before after before' after' : Text}
    (one : FirstCut separator t before after) (other : FirstCut separator t before' after') :
    before = before' ∧ after = after' := by
  rcases List.append_eq_append_iff.mp (one.split.symm.trans other.split) with
    ⟨more, rfl, rest⟩ | ⟨more, rfl, rest⟩
  · cases more with
    | nil => exact ⟨by simp, (List.cons.inj rest).2⟩
    | cons c more =>
      obtain ⟨rfl, rfl⟩ := List.cons.inj rest
      exact absurd ⟨before, more, rfl, one.closed⟩ other.first
  · cases more with
    | nil => exact ⟨by simp, (List.cons.inj rest).2.symm⟩
    | cons c more =>
      obtain ⟨rfl, rfl⟩ := List.cons.inj rest
      exact absurd ⟨before', more, rfl, other.closed⟩ one.first

theorem FirstCut.cutAt?_eq {separator : Char} {t before after : Text} (cut : FirstCut separator t before after) :
    cutAt? separator top t = some (before, after) := by
  cases found : cutAt? separator top t with
  | none => exact absurd ⟨before, after, cut.split, cut.closed⟩ (cutAt?_top_eq_none_iff.mp found)
  | some parts =>
    obtain ⟨rfl, rfl⟩ := cut.unique (firstCut_of_cutAt? found)
    rfl

/-! ## Parts -/

theorem partsAt_ne_nil (separator : Char) (r : Reading) (t : Text) : partsAt separator r t ≠ [] := by
  cases t with
  | nil => simp [partsAt]
  | cons c t =>
    rw [partsAt]
    split_ifs
    · simp
    · split <;> simp

/-- With separators between them, the parts of a text are the text. -/
theorem join_partsAt (separator : Char) (r : Reading) (t : Text) :
    Text.join [separator] (partsAt separator r t) = t := by
  induction t generalizing r with
  | nil => rfl
  | cons c t ih =>
    rw [partsAt]
    split
    · rename_i here
      rw [Text.join_cons _ _ (partsAt_ne_nil _ _ _), ih top, here.2]
      rfl
    · have rest := ih (r.step c)
      cases parts : partsAt separator (r.step c) t with
      | nil => exact absurd parts (partsAt_ne_nil _ _ _)
      | cons first others =>
        rw [parts] at rest
        have grows : Text.join [separator] ((c :: first) :: others) = c :: Text.join [separator] (first :: others) := by
          cases others <;> rfl
        rw [grows, rest]

/-- A text in which no separator counts is one part. -/
theorem partsAt_eq_singleton {separator : Char} {r : Reading} {t : Text}
    (none : ∀ a b, t = a ++ separator :: b → r.read a ≠ top) : partsAt separator r t = [t] := by
  induction t generalizing r with
  | nil => rfl
  | cons c t ih =>
    have elsewhere : ¬ (r = top ∧ c = separator) := by
      rintro ⟨isTop, rfl⟩
      exact none [] t rfl isTop
    rw [partsAt, if_neg elsewhere, ih fun a b split => none (c :: a) b (by rw [split]; rfl)]

/-- Up to a separator that counts, a text has its own parts. -/
theorem partsAt_append {separator : Char} (plain : top.step separator = top) {r : Reading} {a : Text}
    (closed : r.read a = top) (b : Text) :
    partsAt separator r (a ++ separator :: b) = partsAt separator r a ++ partsAt separator top b := by
  induction a generalizing r with
  | nil =>
    obtain rfl : r = top := closed
    simp [partsAt]
  | cons c a ih =>
    rw [List.cons_append, partsAt, partsAt]
    by_cases here : r = top ∧ c = separator
    · obtain ⟨rfl, rfl⟩ := here
      rw [read_cons, plain] at closed
      rw [if_pos ⟨rfl, rfl⟩, if_pos ⟨rfl, rfl⟩, ih closed, List.cons_append]
    · rw [if_neg here, if_neg here, ih closed]
      cases parts : partsAt separator (r.step c) a with
      | nil => exact absurd parts (partsAt_ne_nil _ _ _)
      | cons first others => rfl

end Reading

namespace Pair
open Reading

/-! ## Pairs -/

/-- A closed text before a comma is split on its own. -/
theorem split_append {a : Text} (closed : Closed a) (b : Text) : split (a ++ lit "," ++ b) = split a ++ split b := by
  have comma : a ++ lit "," ++ b = a ++ ',' :: b := by simp [lit]
  rw [split, comma, partsAt_append (by decide) closed, List.filterMap_append, split, split]

/-- A text without a comma outside quotes and brackets is one unit. -/
theorem split_eq_toList {u : Text} (single : ¬ TopLevel ',' u) : split u = (ofUnit? u).toList := by
  rw [split, partsAt_eq_singleton fun a b split closed => single ⟨a, b, split, closed⟩]
  cases found : ofUnit? u <;> simp [found]

theorem not_topLevel_of_allBlank {c : Char} {u : Text} (blank : u.allBlank) (solid : Text.isBlank c = false) :
    ¬ TopLevel c u := by
  rintro ⟨a, b, rfl, -⟩
  have := List.all_eq_true.mp blank c (by simp)
  rw [solid] at this
  cases this

/-- The pair of a unit without a comma outside quotes and brackets. -/
theorem split_unit {u : Text} (single : ¬ TopLevel ',' u) :
    (u.allBlank → split u = []) ∧
      (¬ u.allBlank → ¬ TopLevel ':' u → split u = [⟨unquote u.strip, none⟩]) ∧
      ∀ k v, FirstCut ':' u k v → split u = [⟨unquote k.strip, some v.strip⟩] := by
  rw [split_eq_toList single, ofUnit?]
  refine ⟨fun blank => ?_, fun solid bare => ?_, fun k v cut => ?_⟩
  · rw [cutAt?_top_eq_none_iff.mpr (not_topLevel_of_allBlank blank (by decide))]
    simp [Text.strip_eq_nil_iff.mpr blank]
  · rw [cutAt?_top_eq_none_iff.mpr bare]
    have : ¬ u.strip = [] := fun empty => solid (Text.strip_eq_nil_iff.mp empty)
    simp [this]
  · rw [cut.cutAt?_eq]
    rfl

/-- Splitting goes unit by unit. A closed text before a comma is split on its
    own. A text without a top-level comma gives no pair when it is blank, a bare
    key when it has no top-level colon, and else the pair of what stands before
    and after the first one. A stray closing bracket keeps a text closed, and
    nothing is top-level after a quote or bracket that is not closed. -/
theorem split_by_units :
    (∀ a b, Closed a → split (a ++ lit "," ++ b) = split a ++ split b) ∧
      (∀ u, ¬ TopLevel ',' u →
        (u.allBlank → split u = []) ∧
        (¬ u.allBlank → ¬ TopLevel ':' u → split u = [⟨unquote u.strip, none⟩]) ∧
        (TopLevel ':' u → ∃ k v, FirstCut ':' u k v) ∧
        ∀ k v, FirstCut ':' u k v → split u = [⟨unquote k.strip, some v.strip⟩]) ∧
      (∀ a c, Closed a → c ∈ closers → Closed (a ++ [c])) ∧
      (∀ a mark t, Closed a → mark ∈ quotes → mark ∉ t → ∀ p, p <+: t → ¬ Closed (a ++ mark :: p)) ∧
      ∀ a bracket t, Closed a → bracket ∈ openers → (∀ c ∈ t, c ∉ closers) → ∀ p, p <+: t →
        ¬ Closed (a ++ bracket :: p) := by
  refine ⟨fun a b closed => split_append closed b, fun u single => ?_, fun a c closed stray => closed.stray stray,
    fun a mark t closed quote missing p start => closed.not_quote quote fun inside => missing (start.subset inside),
    fun a bracket t closed opener unclosed p start =>
      closed.not_opener opener fun c inside => unclosed c (start.subset inside)⟩
  obtain ⟨empty, bare, valued⟩ := split_unit single
  exact ⟨empty, bare, exists_firstCut, valued⟩

/-- A unit with a stray bracket and quoted separators before another one that ends within quotes. -/
theorem split_by_units_mixed :
    Closed (lit "a: f(')'), b]") ∧ ¬ TopLevel ',' (lit "k: ['x:y', \"z") ∧
      FirstCut ':' (lit "k: ['x:y', \"z") (lit "k") (lit " ['x:y', \"z") ∧
      split (lit "a: f(')'), b]" ++ lit "," ++ lit "k: ['x:y', \"z") =
        split (lit "a: f(')'), b]") ++ [⟨unquote (Text.strip (lit "k")), some (Text.strip (lit " ['x:y', \"z"))⟩] := by
  have closed : Closed (lit "a: f(')'), b]") := by decide
  have cut : FirstCut ':' (lit "k: ['x:y', \"z") (lit "k") (lit " ['x:y', \"z") := firstCut_of_cutAt? (by decide)
  have single : ¬ TopLevel ',' (lit "k: ['x:y', \"z") := cutAt?_top_eq_none_iff.mp (by decide)
  obtain ⟨units, pairs, -⟩ := split_by_units
  exact ⟨closed, single, cut, by rw [units _ _ closed, (pairs _ single).2.2.2 _ _ cut]⟩

end Pair
end Bindmark
