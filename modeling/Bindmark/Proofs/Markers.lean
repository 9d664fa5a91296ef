import Bindmark.Proofs.Occurrence
import Bindmark.Proofs.Trimming
import Bindmark.Settings.Marker

/-!
# Reading comment markers

Which comments are read as opening markers, and with which directive string. The
marker word may be any text, also one of blanks or none at all. Blanks before it
are passed over, and it may be found behind more or fewer of them, but what
follows it is the same then, apart from blanks. So the directive string of an
opening marker is read back, and a closing marker is never taken for an opening
one.
-/

namespace Bindmark

namespace Text

variable {b t : Text}

/-! ## Blanks in front -/

/-- How many blanks a text begins with. -/
def leadingBlanks (t : Text) : Nat := (t.takeWhile isBlank).length

theorem leadingBlanks_append_of_allBlank (blank : b.allBlank) :
    leadingBlanks (b ++ t) = b.length + leadingBlanks t := by
  rw [leadingBlanks, List.takeWhile_append_of_pos (List.all_eq_true.mp blank), List.length_append, leadingBlanks]

/-- What is behind a text that is not blank adds no blanks in front. -/
theorem leadingBlanks_append_of_solid (solid : ¬ t.allBlank) (rest : Text) :
    leadingBlanks (t ++ rest) = leadingBlanks t := by
  induction t with
  | nil => simp [allBlank] at solid
  | cons c t ih =>
    by_cases blank : isBlank c = true
    · have later : ¬ Text.allBlank t := by
        intro all
        exact solid (by simpa [allBlank, blank] using all)
      simpa [leadingBlanks, blank] using ih later
    · simp [leadingBlanks, blank]

theorem allBlank_take {n : Nat} (few : n ≤ leadingBlanks t) : allBlank (t.take n) := by
  have front : t.take n <+: t.takeWhile isBlank := by
    apply List.prefix_of_prefix_length_le (List.take_prefix n t) (List.takeWhile_prefix isBlank)
    rw [List.length_take]
    exact (Nat.min_le_left _ _).trans few
  rw [allBlank, List.all_eq_true]
  intro c inside
  exact List.mem_takeWhile_imp (front.subset inside)

/-- Wherever a text is found behind blanks, what follows it is the same apart from
    blanks: a text with another character in it is found in one place only, and
    behind a text of blanks everything else follows. -/
theorem strip_behind {word b' r r' : Text} (same : b ++ word ++ r = b' ++ word ++ r') (blank : b.allBlank)
    (blank' : b'.allBlank) : strip r = strip r' := by
  by_cases spaces : word.allBlank = true
  · have before {b r : Text} (blank : b.allBlank) : strip (b ++ word ++ r) = strip r := by
      rw [List.append_assoc, strip_append_of_allBlank blank, strip_append_of_allBlank spaces]
    rw [← before blank, same, before blank']
  · have counted {b r : Text} (blank : b.allBlank) :
        leadingBlanks (b ++ word ++ r) = b.length + leadingBlanks word := by
      rw [List.append_assoc, leadingBlanks_append_of_allBlank blank, leadingBlanks_append_of_solid spaces]
    have lengths : b.length = b'.length := by
      have := congrArg leadingBlanks same
      rw [counted blank, counted blank'] at this
      omega
    rw [List.append_assoc, List.append_assoc] at same
    obtain ⟨-, rest⟩ := List.append_inj same lengths
    rw [List.append_cancel_left rest]

end Text

namespace Settings

open Text

/-! ## What follows the marker word -/

theorem afterMarkerWord?_eq_some {word t d : Text} (read : afterMarkerWord? word t = some (some d)) :
    ∃ c rest, t = word ++ c :: rest ∧ isBlank c ∧ d = strip rest := by
  unfold afterMarkerWord? at read
  split at read
  · cases read
  · cases read
  · split at read <;> cases read
  · rename_i c rest _ behind
    split at read
    · rename_i blank
      cases read
      refine ⟨c, rest, dropLeading?_eq_some behind, blank, ?_⟩
      exact strip_append_of_allBlank (b := [c]) (by simpa [allBlank] using blank)
    · cases read

/-- Where the word is followed by something that is not blank, that is the
    directive string, or there is no marker. -/
theorem afterMarkerWord?_of_solid (word : Text) {r d : Text} (trimmed : strip r = d) (some_ : d ≠ []) :
    afterMarkerWord? word (word ++ r) = none ∨ afterMarkerWord? word (word ++ r) = some (some d) := by
  unfold afterMarkerWord?
  rw [dropLeading?_append]
  rcases r with _ | ⟨c, _ | ⟨c', rest⟩⟩
  · exact absurd trimmed.symm some_
  · have solid : isBlank c = false := by
      rw [← trimmed, ne_eq, strip_eq_nil_iff] at some_
      simpa [allBlank] using some_
    simp [solid]
  · by_cases blank : isBlank c = true
    · simp [blank, trimmed]
    · simp [blank]

/-! ## Reading markers -/

/-- A comment opens a region: behind blanks it has the marker word, and behind a
    blank after that a directive string. -/
def Opens (word comment d : Text) : Prop :=
  ∃ b c rest, comment = b ++ word ++ c :: rest ∧ b.allBlank ∧ isBlank c ∧ strip rest = d

section
variable {word comment d : Text}

/-- All places where the word of an opening comment is found give its directive
    string. -/
theorem Opens.answer_eq (opens : Opens word comment d) (some_ : d ≠ []) {n : Nat} (few : n ≤ leadingBlanks comment)
    {answer : Option Text} (read : afterMarkerWord? word (comment.drop n) = some answer) : answer = some d := by
  obtain ⟨b, c, rest, rfl, blank, blank', same⟩ := opens
  have trimmed : strip (c :: rest) = d := by
    rw [← same]
    exact strip_append_of_allBlank (b := [c]) (by simpa [allBlank] using blank')
  cases behind : dropLeading? word ((b ++ word ++ c :: rest).drop n) with
  | none =>
    unfold afterMarkerWord? at read
    rw [behind] at read
    cases read
  | some r =>
    have split := dropLeading?_eq_some behind
    have whole : (b ++ word ++ c :: rest).take n ++ word ++ r = b ++ word ++ c :: rest := by
      rw [List.append_assoc, ← split, List.take_append_drop]
    have follows := (strip_behind whole (allBlank_take few) blank).trans trimmed
    rw [split] at read
    rcases afterMarkerWord?_of_solid word follows some_ with none | found
    · rw [none] at read
      cases read
    · rw [found] at read
      exact (Option.some.inj read).symm

theorem Opens.exists_answer (opens : Opens word comment d) (some_ : d ≠ []) :
    ∃ n ≤ leadingBlanks comment, afterMarkerWord? word (comment.drop n) = some (some d) := by
  obtain ⟨b, c, rest, rfl, blank, blank', same⟩ := opens
  have solid : rest ≠ [] := by
    rintro rfl
    exact some_ same.symm
  obtain ⟨x, more, rfl⟩ := List.exists_cons_of_ne_nil solid
  have trimmed : strip (c :: x :: more) = d := by
    rw [← same]
    exact strip_append_of_allBlank (b := [c]) (by simpa [allBlank] using blank')
  refine ⟨b.length, ?_, ?_⟩
  · rw [List.append_assoc, leadingBlanks_append_of_allBlank blank]
    exact Nat.le_add_right _ _
  · unfold afterMarkerWord?
    rw [List.append_assoc, List.drop_left, dropLeading?_append]
    simp [blank', trimmed]

end

/-- A comment is read with a directive string that is not empty exactly when it
    opens a region with that one. -/
theorem readMarker?_eq_some_iff {s : Settings} {comment d : Text} (some_ : d ≠ []) :
    s.readMarker? comment = some d ↔ Opens s.markerWord comment d := by
  have among {n : Nat} : n ∈ (List.range (leadingBlanks comment + 1)).reverse ↔ n ≤ leadingBlanks comment := by
    rw [List.mem_reverse, List.mem_range, Nat.lt_succ_iff]
  rw [readMarker?, Option.join_eq_some_iff]
  change (List.range (leadingBlanks comment + 1)).reverse.findSome? _ = _ ↔ _
  constructor
  · intro found
    obtain ⟨n, inside, read⟩ := List.exists_of_findSome?_eq_some found
    obtain ⟨c, rest, behind, blank, same⟩ := afterMarkerWord?_eq_some read
    refine ⟨comment.take n, c, rest, ?_, allBlank_take (among.mp inside), blank, same.symm⟩
    rw [List.append_assoc, ← behind, List.take_append_drop]
  · intro opens
    obtain ⟨n, few, read⟩ := opens.exists_answer some_
    cases found : (List.range (leadingBlanks comment + 1)).reverse.findSome? fun n =>
        afterMarkerWord? s.markerWord (comment.drop n) with
    | none =>
      have missed := List.findSome?_eq_none_iff.mp found n (among.mpr few)
      rw [read] at missed
      cases missed
    | some answer =>
      obtain ⟨m, inside, read'⟩ := List.exists_of_findSome?_eq_some found
      rw [opens.answer_eq some_ (among.mp inside) read']

/-! ## Written markers -/

theorem opens_openMarker (s : Settings) (d : Text) : Opens s.markerWord (s.openMarker d) d.strip := by
  refine ⟨[], ' ', d, ?_, rfl, by decide, rfl⟩
  simp [openMarker, lit]

/-- The marker word can leave no more than one character of a closing marker, and
    that is too little for a directive string. -/
theorem readMarker?_closeMarker (s : Settings) : s.readMarker? s.closeMarker = none := by
  have start : leadingBlanks s.closeMarker = 0 := by
    simp [leadingBlanks, closeMarker, lit, isBlank, blanks]
  have short : (afterMarkerWord? s.markerWord s.closeMarker).join = none := by
    unfold afterMarkerWord?
    cases behind : dropLeading? s.markerWord s.closeMarker with
    | none => rfl
    | some rest =>
      have split := congrArg List.length (dropLeading?_eq_some behind)
      have one : rest.length = 1 := by
        simp only [closeMarker, lit, List.length_append] at split
        simp at split
        omega
      obtain ⟨c, rfl⟩ := List.length_eq_one_iff.mp one
      by_cases blank : isBlank c = true
      · simp [blank]
      · simp [blank]
  rw [readMarker?]
  change ((List.range (leadingBlanks s.closeMarker + 1)).reverse.findSome? _).join = none
  rw [start]
  simpa using short

/-- Whatever the marker word is, a directive string that is not blank is read back
    from its opening marker, without the blanks around it. A closing marker is
    read as no opening one. A directive string that was read from any comment, and
    is not blank, is read back from the marker that is written for it. -/
theorem markers_read_back (s : Settings) :
    (∀ d : Text, ¬ d.allBlank → s.readMarker? (s.openMarker d) = some d.strip) ∧
      s.readMarker? s.closeMarker = none ∧
      ∀ comment d : Text, s.readMarker? comment = some d → ¬ d.allBlank → s.readMarker? (s.openMarker d) = some d := by
  have written (d : Text) (solid : ¬ d.allBlank) : s.readMarker? (s.openMarker d) = some d.strip := by
    have some_ : d.strip ≠ [] := mt strip_eq_nil_iff.mp solid
    exact (readMarker?_eq_some_iff some_).mpr (opens_openMarker s d)
  refine ⟨written, readMarker?_closeMarker s, ?_⟩
  intro comment d read solid
  have some_ : d ≠ [] := by
    rintro rfl
    exact solid rfl
  obtain ⟨b, c, rest, -, -, -, rfl⟩ := (readMarker?_eq_some_iff some_).mp read
  rw [written _ solid, strip_strip]

/-- Settings with a marker word of blanks, which is also found behind some of the
    blanks that are passed over. -/
def blankWord : Settings := { markerWord := lit " \t" }

theorem markers_read_back_blank :
    ¬ (lit "\t \t if: a").allBlank ∧ blankWord.openMarker (lit "\t \t if: a") = lit " \t \t \t if: a" ∧
      blankWord.readMarker? (lit " \t \t \t if: a") = some (lit "if: a") ∧
      blankWord.readMarker? (blankWord.openMarker (lit "if: a")) = some (lit "if: a") := by
  obtain ⟨written, -, again⟩ := markers_read_back blankWord
  have solid : ¬ (lit "\t \t if: a").allBlank := by decide
  have read := written _ solid
  have trimmed : (lit "\t \t if: a").strip = lit "if: a" := by decide
  rw [trimmed] at read
  exact ⟨solid, rfl, read, again _ _ read (by decide)⟩

end Settings
end Bindmark
