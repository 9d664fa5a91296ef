import Bindmark.Proofs.Balance

/-!
# Values in directive strings

A closed text in which no comma counts (`Unbroken`) stays whole as a value in a
directive string. Brackets put around it keep it so, whatever stray closing
brackets it holds: they may close the bracket put before it, and the one behind
it is stray then.
-/

namespace Bindmark

namespace Reading

/-! ## Unbroken texts -/

/-- A closed text in which no comma counts. -/
structure Unbroken (t : Text) : Prop where
  closed : Closed t
  comma : Hidden ',' top t

theorem Sealed.unbroken {t : Text} (isSealed : Sealed t) : Unbroken t := ⟨isSealed.closed, isSealed.comma⟩

theorem Unbroken.append {a b : Text} (first : Unbroken a) (second : Unbroken b) : Unbroken (a ++ b) where
  closed := first.closed.append second.closed
  comma := first.comma.append (by rw [first.closed]; exact second.comma)

theorem unbroken_join {ts : List Text} (unbroken : ∀ x ∈ ts, Unbroken x) : Unbroken (Text.join (lit "+") ts) := by
  induction ts with
  | nil => exact ⟨rfl, hidden_nil _ _⟩
  | cons x ts ih =>
    have others := ih fun y inside => unbroken y (List.mem_cons_of_mem _ inside)
    cases ts with
    | nil => exact unbroken x (by simp)
    | cons y ts =>
      have plus : Unbroken (lit "+") := ⟨by decide, by decide⟩
      exact ((unbroken x (by simp)).append plus).append others

/-! ## More brackets around a text -/

/-- A closing bracket that is stray in a text closes a bracket that was put
    before the text, so that a reader may come out of some of them. -/
theorem exists_step_raise (more : Nat) (r : Reading) (c : Char) :
    ∃ left ≤ more, (raise more r).step c = raise left (r.step c) := by
  by_cases stray : c ∈ closers ∧ r = top
  · obtain ⟨closer, rfl⟩ := stray
    have other : c ∉ quotes ∧ c ∉ openers := by
      revert c
      simp [closers, quotes, openers]
    exact ⟨more - 1, Nat.sub_le _ _, by simp [raise, step, closer, other]⟩
  · exact ⟨more, Nat.le_refl _, step_raise more fun closer isTop => stray ⟨closer, isTop⟩⟩

theorem exists_read_raise (more : Nat) (r : Reading) (t : Text) :
    ∃ left ≤ more, (raise more r).read t = raise left (r.read t) := by
  induction t generalizing more r with
  | nil => exact ⟨more, Nat.le_refl _, rfl⟩
  | cons c t ih =>
    obtain ⟨here, fewer, stepped⟩ := exists_step_raise more r c
    obtain ⟨left, least, later⟩ := ih here (r.step c)
    exact ⟨left, Nat.le_trans least fewer, by rw [read_cons, read_cons, stepped, later]⟩

/-- What is hidden in a text is hidden in it within more brackets. -/
theorem Hidden.raise {separator : Char} {r : Reading} {t : Text} (hidden : Hidden separator r t) (more : Nat) :
    Hidden separator (raise more r) t := by
  intro a b split isTop
  obtain ⟨left, -, raised⟩ := exists_read_raise more r a
  refine hidden a b split ?_
  rw [raised] at isTop
  cases inner : r.read a with
  | code depth =>
    rw [inner] at isTop
    simp only [Reading.raise, code.injEq, Nat.add_eq_zero_iff] at isTop
    rw [isTop.1]
  | quoted depth mark escaped =>
    rw [inner] at isTop
    cases isTop

/-- A call around an unbroken text. -/
theorem Unbroken.call {name t : Text} (named : Unbroken name) (inner : Unbroken t) :
    Unbroken (name ++ lit "(" ++ t ++ lit ")") := by
  have opened : top.read (lit "(") = raise 1 top := by decide
  have before : top.read (name ++ lit "(") = raise 1 top := by rw [read_append, named.closed, opened]
  obtain ⟨left, fewer, inside⟩ := exists_read_raise 1 top t
  rw [inner.closed] at inside
  have bracket (r : Reading) (c : Char) (other : c ≠ ',') : Hidden ',' r [c] :=
    hidden_cons.mpr ⟨fun ⟨_, same⟩ => other same, hidden_nil _ _⟩
  have opening (r : Reading) : Hidden ',' r (lit "(") := bracket r '(' (by decide)
  have closing (r : Reading) : Hidden ',' r (lit ")") := bracket r ')' (by decide)
  refine ⟨?_, ((named.comma.append (opening _)).append ?_).append (closing _)⟩
  · rw [Closed, read_append, read_append, before, inside]
    rcases Nat.le_one_iff_eq_zero_or_eq_one.mp fewer with rfl | rfl <;> decide
  · rw [before]
    exact inner.comma.raise 1

end Reading

namespace Pair
open Reading

/-- A directive whose key has no separator that counts, and whose value has no
    comma that does, is one unit. -/
theorem split_keyed {k v : Text} (key : Sealed k) (value : Hidden ',' top v) :
    split (k ++ lit ":" ++ v) = [⟨unquote k.strip, some v.strip⟩] := by
  have colon : Closed (k ++ lit ":") := key.closed.append (by decide)
  have single : ¬ TopLevel ',' (k ++ lit ":" ++ v) := by
    rw [← hidden_top_iff]
    refine (key.comma.append ?_).append ?_
    · rw [key.closed]
      decide
    · rw [colon]
      exact value
  have cut : FirstCut ':' (k ++ lit ":" ++ v) k v := ⟨by simp [lit], key.closed, hidden_top_iff.mp key.colon⟩
  exact (split_unit single).2.2 _ _ cut

theorem closed_keyed {k v : Text} (key : Closed k) (value : Closed v) : Closed (k ++ lit ":" ++ v) :=
  (key.append (by decide)).append value

end Pair
end Bindmark
