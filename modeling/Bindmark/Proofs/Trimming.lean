import Bindmark.Text.Blank
import Mathlib.Data.List.DropRight

/-!
# Trimmed texts

Which texts trimming leaves alone, and which it leaves nothing of.
-/

namespace Bindmark.Text

theorem stripStart_eq_self {t : Text} (first : ∀ c, t.head? = some c → isBlank c = false) : t.stripStart = t := by
  rw [stripStart, List.dropWhile_eq_self_iff]
  intro nonempty
  rw [first _ (by rw [List.head?_eq_getElem?, List.getElem?_eq_getElem nonempty])]
  simp

theorem stripEnd_eq_self {t : Text} (last : ∀ c, t.getLast? = some c → isBlank c = false) : t.stripEnd = t := by
  have : t.rdropWhile isBlank = t := by
    rw [List.rdropWhile_eq_self_iff]
    intro nonempty
    rw [last _ (List.getLast?_eq_some_getLast nonempty)]
    simp
  exact this

/-- Trimming leaves a text alone that has no blank at either end. -/
theorem strip_eq_self {t : Text} (first : ∀ c, t.head? = some c → isBlank c = false)
    (last : ∀ c, t.getLast? = some c → isBlank c = false) : t.strip = t := by
  rw [strip, stripStart_eq_self first, stripEnd_eq_self last]

theorem strip_of_noBlank {t : Text} (solid : ∀ c ∈ t, isBlank c = false) : t.strip = t :=
  strip_eq_self (fun c first => solid c (List.mem_of_head? first)) fun c last => solid c (List.mem_of_getLast? last)

theorem not_isBlank_last_stripEnd {t : Text} {c : Char} (last : t.stripEnd.getLast? = some c) : isBlank c = false := by
  have trimmed : t.stripEnd = t.rdropWhile isBlank := rfl
  have some_ : t.rdropWhile isBlank ≠ [] := by
    intro empty
    rw [trimmed, empty] at last
    cases last
  have solid := List.rdropWhile_last_not isBlank t some_
  rw [trimmed, List.getLast?_eq_some_getLast some_] at last
  rw [Option.some.inj last] at solid
  simpa using solid

/-- What is left of a trimmed text neither begins nor ends with a blank. -/
theorem not_isBlank_ends_strip {t : Text} {c : Char} (ends : t.strip.head? = some c ∨ t.strip.getLast? = some c) :
    isBlank c = false := by
  rcases ends with first | last
  · have trimmed : t.strip = t.stripStart.rdropWhile isBlank := rfl
    rw [trimmed] at first
    have starts : t.stripStart.head? = some c := by
      obtain ⟨rest, whole⟩ := List.rdropWhile_prefix isBlank (l := t.stripStart)
      rw [← whole, List.head?_append, first]
      rfl
    have more : t.dropWhile isBlank ≠ [] := List.ne_nil_of_mem (List.mem_of_mem_head? starts)
    have solid := List.head_dropWhile_not isBlank more
    rw [stripStart, List.head?_eq_some_head more] at starts
    rwa [Option.some.inj starts] at solid
  · exact not_isBlank_last_stripEnd last

theorem strip_strip (t : Text) : t.strip.strip = t.strip :=
  strip_eq_self (fun _ first => not_isBlank_ends_strip (.inl first)) fun _ last => not_isBlank_ends_strip (.inr last)

theorem stripStart_append_of_allBlank {b t : Text} (blank : b.allBlank) : stripStart (b ++ t) = stripStart t := by
  rw [stripStart, List.dropWhile_append_of_pos (List.all_eq_true.mp blank), stripStart]

/-- Blanks before a text are trimmed with it. -/
theorem strip_append_of_allBlank {b t : Text} (blank : b.allBlank) : strip (b ++ t) = strip t := by
  rw [strip, stripStart_append_of_allBlank blank, strip]

theorem stripEnd_append_of_allBlank {t b : Text} (blank : b.allBlank) : stripEnd (t ++ b) = stripEnd t := by
  rw [stripEnd, List.reverse_append,
    List.dropWhile_append_of_pos fun c inside => List.all_eq_true.mp blank c (List.mem_reverse.mp inside), stripEnd]

theorem stripEnd_eq_nil_iff {t : Text} : t.stripEnd = [] ↔ t.allBlank := by
  have : t.rdropWhile isBlank = [] ↔ t.allBlank := by rw [List.rdropWhile_eq_nil_iff, allBlank, List.all_eq_true]
  exact this

/-- Trimming leaves nothing exactly of blanks. -/
theorem strip_eq_nil_iff {t : Text} : t.strip = [] ↔ t.allBlank := by
  rw [strip, stripEnd_eq_nil_iff, allBlank, allBlank, List.all_eq_true, List.all_eq_true]
  constructor
  · intro blank c member
    rw [← List.takeWhile_append_dropWhile (p := isBlank) (l := t)] at member
    rcases List.mem_append.mp member with before | within
    · exact List.mem_takeWhile_imp before
    · exact blank c within
  · intro blank c member
    exact blank c ((List.dropWhile_sublist _).mem member)

/-- A text without its trailing blanks, and these. -/
theorem exists_stripEnd (t : Text) : ∃ blanks : Text, blanks.allBlank ∧ t = t.stripEnd ++ blanks := by
  refine ⟨t.rtakeWhile isBlank, ?_, ?_⟩
  · rw [allBlank, List.all_eq_true]
    exact fun c inside => List.mem_rtakeWhile_imp inside
  · exact (List.rdropWhile_append_rtakeWhile).symm

end Bindmark.Text
