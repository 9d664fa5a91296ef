import Bindmark.Pair.Basic
import Bindmark.Proofs.Balance
import Bindmark.Text.Lower

/-!
# Ordinary names

Names without blanks, quotes, brackets, commas and colons. A directive string
holds them as they are, and in lower case they are still such names: no letter
has any of those characters for its lower case.
-/

namespace Bindmark

open Reading

/-! ## Ordinary characters -/

/-- The characters that a name stands for itself without. -/
def specials : List Char := Text.blanks ++ quotes ++ openers ++ closers ++ [',', ':']

/-- Names without special characters. -/
def Ordinary (t : Text) : Prop := ∀ c ∈ t, c ∉ specials

instance (t : Text) : Decidable (Ordinary t) := List.decidableBAll (· ∉ specials) t

theorem Ordinary.append {a b : Text} (first : Ordinary a) (second : Ordinary b) : Ordinary (a ++ b) :=
  List.forall_mem_append.mpr ⟨first, second⟩

theorem Ordinary.noBlank {t : Text} (ordinary : Ordinary t) {c : Char} (inside : c ∈ t) : Text.isBlank c = false := by
  have := ordinary c inside
  simp only [specials, List.mem_append, not_or] at this
  simpa [Text.isBlank] using this.1.1.1.1

/-! ## Names in directive strings -/

/-- No separator counts in a text without quotes, brackets, commas and colons. -/
theorem sealed_of_plain {t : Text} (plain : ∀ c ∈ t, c ∉ quotes ++ openers ++ closers ++ [',', ':']) : Sealed t := by
  induction t with
  | nil => exact sealed_nil
  | cons c t ih =>
    have other := plain c (List.mem_cons_self ..)
    have later := ih fun d inside => plain d (List.mem_cons_of_mem _ inside)
    simp only [List.mem_append, List.mem_cons, List.not_mem_nil, or_false, not_or] at other
    obtain ⟨⟨⟨noQuote, noOpener⟩, noCloser⟩, noComma, noColon⟩ := other
    have stays : top.step c = top := by simp [step, noQuote, noOpener, noCloser]
    have character : Sealed [c] := by
      refine ⟨stays, ?_, ?_⟩
      · exact hidden_cons.mpr ⟨fun both => noComma both.2, hidden_nil _ _⟩
      · exact hidden_cons.mpr ⟨fun both => noColon both.2, hidden_nil _ _⟩
    exact character.append later

theorem Ordinary.plain {t : Text} (ordinary : Ordinary t) :
    ∀ c ∈ t, c ∉ quotes ++ openers ++ closers ++ [',', ':'] := by
  intro c inside special
  have listed : c ∈ specials := by
    simp only [specials, List.mem_append] at special ⊢
    tauto
  exact ordinary c inside listed

theorem Ordinary.sealed {t : Text} (ordinary : Ordinary t) : Sealed t := sealed_of_plain ordinary.plain

theorem Ordinary.strip {t : Text} (ordinary : Ordinary t) : t.strip = t :=
  Text.strip_of_noBlank fun _ inside => ordinary.noBlank inside

/-- A text that does not begin with a quote has no quotes around it. -/
theorem unquote_of_head {t : Text} (bare : ∀ c, t.head? = some c → c ∉ quotes) : Pair.unquote t = t := by
  cases t with
  | nil => rfl
  | cons c t => rw [Pair.unquote, if_neg fun quoted => bare c rfl quoted.1]

/-- A text that begins with an ordinary name has no quotes around it. -/
theorem Ordinary.unquote_append {t : Text} (ordinary : Ordinary t) (some_ : t ≠ []) (more : Text) :
    Pair.unquote (t ++ more) = t ++ more := by
  cases t with
  | nil => exact absurd rfl some_
  | cons c t =>
    have other := ordinary.plain c (List.mem_cons_self ..)
    simp only [List.mem_append, not_or] at other
    refine unquote_of_head fun d first => ?_
    cases first
    exact other.1.1.1

theorem Ordinary.unquote {t : Text} (ordinary : Ordinary t) : Pair.unquote t = t := by
  by_cases some_ : t = []
  · rw [some_]
    rfl
  · simpa using ordinary.unquote_append some_ []

/-! ## Lower case -/

/-- The code points of the special characters. -/
def specialCodes : List Nat := specials.map Char.toNat

/-- No letter of a run has a special character for its lower case. -/
def avoidsSpecials : Nat × Nat × Nat × Int → Bool
  | (lo, hi, _, distance) => specialCodes.all fun n => n < lo + distance || hi + distance < n

theorem lowerRuns_avoid : Text.lowerRuns.all avoidsSpecials = true := by decide +kernel

theorem toLower_ascii : ∀ n < 0x80, Char.ofNat n ∉ specials → (Char.ofNat n).toLower ∉ specials := by
  decide +kernel

theorem ofNat_notMem_specials {n : Nat} (other : n ∉ specialCodes) : Char.ofNat n ∉ specials := by
  intro inside
  have code := List.mem_map_of_mem (f := Char.toNat) inside
  by_cases valid : n.isValidChar
  · rw [Char.ofNat, dif_pos valid] at code
    exact other code
  · rw [Char.ofNat, dif_neg valid] at code
    revert code
    decide

theorem lowerOf_notMem_specials {c : Char} (ordinary : c ∉ specials) : Text.lowerOf c ∉ specials := by
  unfold Text.lowerOf
  split
  · rename_i ascii
    have := toLower_ascii c.toNat ascii
    rw [Char.ofNat_toNat] at this
    exact this ordinary
  · split
    · rename_i lo hi step distance found
      have avoids := List.all_eq_true.mp lowerRuns_avoid _ (List.mem_of_find?_eq_some found)
      have within := List.find?_some found
      simp only [Bool.and_eq_true, decide_eq_true_eq] at within
      refine ofNat_notMem_specials fun inside => ?_
      have apart := List.all_eq_true.mp avoids _ inside
      have positive : (c.toNat + distance).toNat ≠ 0 := by
        intro zero
        rw [zero] at inside
        revert inside
        decide
      simp only [Bool.or_eq_true, decide_eq_true_eq] at apart
      omega
    · exact ordinary

theorem lowerOf_special {c : Char} (special : c ∈ specials) : Text.lowerOf c = c := by
  have all : specials.all (fun c => Text.lowerOf c == c) = true := by decide +kernel
  simpa using List.all_eq_true.mp all c special

/-- Special characters that are not in a text are not in its lower case. -/
theorem lowerAfter_avoids {l : List Char} (special : l ⊆ specials) {t : Text} (avoids : ∀ c ∈ t, c ∉ l)
    (before : Text) : ∀ c ∈ Text.lowerAfter before t, c ∉ l := by
  induction t generalizing before with
  | nil => exact avoids
  | cons c t ih =>
    have later := ih (fun d inside => avoids d (List.mem_cons_of_mem _ inside)) (c :: before)
    have single : Text.lowerOf c ∉ l := by
      by_cases isSpecial : c ∈ specials
      · rw [lowerOf_special isSpecial]
        exact avoids c (List.mem_cons_self ..)
      · exact fun inside => lowerOf_notMem_specials isSpecial (special inside)
    have letters : ∀ c ∈ ['i', '\u0307', '\u03c2', '\u03c3'], c ∉ l := by
      have ordinary : Ordinary ['i', '\u0307', '\u03c2', '\u03c3'] := by decide
      exact fun c inside within => ordinary c inside (special within)
    unfold Text.lowerAfter
    refine List.forall_mem_append.mpr ⟨?_, later⟩
    split_ifs <;> simp_all

theorem lower_noBlank {t : Text} (solid : ∀ c ∈ t, Text.isBlank c = false) : ∀ c ∈ t.lower, Text.isBlank c = false := by
  have special : Text.blanks ⊆ specials := fun c inside => by simp [specials, inside]
  have outside (c : Char) : Text.isBlank c = false ↔ c ∉ Text.blanks := by simp [Text.isBlank]
  simp only [outside] at solid ⊢
  exact lowerAfter_avoids special solid []

theorem Ordinary.lower {t : Text} (ordinary : Ordinary t) : Ordinary t.lower :=
  lowerAfter_avoids (List.Subset.refl _) ordinary []

end Bindmark
