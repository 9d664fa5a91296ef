import Bindmark.Interpolation.Block
import Mathlib.Data.List.TakeWhile
import Mathlib.Tactic.Common

/-!
# The shorthand of blocks

A block may be written as a name, blanks and a value, and a colon then takes
the place of the blanks. What follows the blanks is read to the end of its
line only, so that a value of several lines loses all lines but the first.
-/

namespace Bindmark.Block

/-- The text of a block after the number sign, and before the slash of a whole one. -/
def bodyOf (stripped : Text) : Text :=
  if stripped.getLast? = some '/' then (stripped.drop 1).dropLast else stripped.drop 1

/-- A block that is written as a name, blanks and a value. -/
structure Shorthand (body name blanks value : Text) : Prop where
  split : body = name ++ (blanks ++ value)
  named : name ≠ [] ∧ ∀ c ∈ name, isNamePart c = true
  spaced : blanks ≠ [] ∧ ∀ c ∈ blanks, Text.isBlank c = true
  valued : ∃ c rest, value = c :: rest ∧ Text.isBlank c = false ∧ c ≠ ':'

/-- A directive string that holds all of a block, but perhaps for one run of
    blanks that a colon has taken the place of. -/
def Kept (body directive : Text) : Prop :=
  directive = body ∨ ∃ name blanks value, body = name ++ (blanks ++ value) ∧ name ≠ [] ∧ value ≠ [] ∧
    (blanks ≠ [] ∧ ∀ c ∈ blanks, Text.isBlank c = true) ∧ directive = name ++ lit ":" ++ value

/-- A text is parted after the characters that `p` holds of. -/
theorem takeWhile_dropWhile_append {p : Char → Bool} {front : Text} (back : Text) (all : ∀ c ∈ front, p c = true)
    (stop : ∀ c, back.head? = some c → p c = false) :
    (front ++ back).takeWhile p = front ∧ (front ++ back).dropWhile p = back := by
  rw [List.takeWhile_append_of_pos all, List.dropWhile_append_of_pos all]
  cases back with
  | nil => simp
  | cons c rest =>
    have no : ¬ p c = true := by simp [stop c rfl]
    rw [List.takeWhile_cons_of_neg no, List.dropWhile_cons_of_neg no, List.append_nil]
    exact ⟨rfl, rfl⟩

namespace Shorthand

variable {body name blanks value : Text}

theorem blank_notName {c : Char} (blank : Text.isBlank c = true) : isNamePart c = false := by
  simp [isNamePart, blank]

/-- The name, the blanks and the value are what the text is parted into. -/
theorem parts (short : Shorthand body name blanks value) :
    body.takeWhile isNamePart = name ∧ (body.dropWhile isNamePart).takeWhile Text.isBlank = blanks ∧
      (body.dropWhile isNamePart).dropWhile Text.isBlank = value := by
  obtain ⟨rfl, ⟨_, named⟩, ⟨some_, spaced⟩, c, rest, rfl, solid, _⟩ := short
  obtain ⟨first, blanks, rfl⟩ := List.exists_cons_of_ne_nil some_
  have outer := takeWhile_dropWhile_append (first :: blanks ++ c :: rest) named (by
    rintro d ⟨⟩
    exact blank_notName (spaced first (List.mem_cons_self ..)))
  have inner := takeWhile_dropWhile_append (c :: rest) spaced (by
    rintro d ⟨⟩
    exact solid)
  rw [outer.1, outer.2]
  exact ⟨rfl, inner⟩

/-- Only the first line of the value is kept. -/
theorem directives_eq (short : Shorthand body name blanks value) :
    directives body = name ++ lit ":" ++ value.takeWhile (· != '\n') := by
  obtain ⟨isName, areBlanks, isValue⟩ := short.parts
  obtain ⟨c, rest, rfl, _, notColon⟩ := short.valued
  rw [directives, isName, areBlanks, isValue, if_neg]
  simp [short.named.1, short.spaced.1, notColon]

/-- Where the name ends, no colon stands in the text. -/
theorem not_colon (short : Shorthand body name blanks value) (after : Text) : body ≠ name ++ ':' :: after := by
  obtain ⟨rfl, _, ⟨some_, spaced⟩, _⟩ := short
  obtain ⟨first, blanks, rfl⟩ := List.exists_cons_of_ne_nil some_
  intro same
  rw [List.append_cancel_left_eq, List.cons_append, List.cons.injEq] at same
  have blank := spaced first (List.mem_cons_self ..)
  rw [same.1] at blank
  revert blank
  decide

/-- A colon in the place of blanks stands right behind the name. -/
theorem name_unique (short : Shorthand body name blanks value) {name' value' line after : Text}
    (starts : body = name' ++ after) (same : name ++ ':' :: line = name' ++ ':' :: value') :
    name' = name ∧ value' = line := by
  rcases List.append_eq_append_iff.mp same with ⟨more, rfl, split⟩ | ⟨more, isName, split⟩
  · cases more with
    | nil => simp_all
    | cons c more =>
      obtain ⟨rfl, -⟩ := List.cons.inj split
      rw [List.append_assoc, List.cons_append] at starts
      exact absurd starts (short.not_colon _)
  · cases more with
    | nil => simp_all
    | cons c more =>
      obtain ⟨rfl, -⟩ := List.cons.inj split
      have part := short.named.2 ':' (by simp [isName])
      exact absurd part (by decide)

/-- A value is kept exactly when it is a single line. -/
theorem kept_iff (short : Shorthand body name blanks value) : Kept body (directives body) ↔ '\n' ∉ value := by
  have written := short.directives_eq
  constructor
  · rintro (same | ⟨name', blanks', value', starts, _, _, spaced', directive⟩)
    · rw [written, List.append_assoc] at same
      exact absurd same.symm (short.not_colon _)
    · have cut : name ++ ':' :: value.takeWhile (· != '\n') = name' ++ ':' :: value' := by
        rw [directive] at written
        simpa [lit] using written.symm
      obtain ⟨isName, isLine⟩ := short.name_unique starts cut
      obtain ⟨c, rest, isValue, solid, notColon⟩ := short.valued
      have line : value.takeWhile (· != '\n') = c :: rest.takeWhile (· != '\n') := by
        rw [isValue, List.takeWhile_cons_of_pos]
        rw [bne_iff_ne]
        rintro rfl
        revert solid
        decide
      have again : Shorthand body name blanks' (value.takeWhile (· != '\n')) :=
        ⟨by rw [starts, isName, isLine], short.named, spaced', c, _, line, solid, notColon⟩
      have whole : value = value.takeWhile (· != '\n') := short.parts.2.2.symm.trans again.parts.2.2
      intro feed
      rw [whole] at feed
      simpa using List.mem_takeWhile_imp feed
  · intro oneLine
    have whole : value.takeWhile (· != '\n') = value := by
      rw [List.takeWhile_eq_self_iff]
      intro c inside
      rw [bne_iff_ne]
      rintro rfl
      exact oneLine inside
    obtain ⟨c, rest, isValue, _⟩ := short.valued
    have some_ : value ≠ [] := by simp [isValue]
    rw [whole] at written
    exact .inr ⟨name, blanks, value, short.split, short.named.1, some_, short.spaced, written⟩

end Shorthand

theorem directives_eq_self_or (body : Text) :
    directives body = body ∨ ∃ name blanks value, Shorthand body name blanks value := by
  by_cases plain : (body.takeWhile isNamePart).isEmpty ||
      ((body.dropWhile isNamePart).takeWhile Text.isBlank).isEmpty ||
      ((body.dropWhile isNamePart).dropWhile Text.isBlank).isEmpty ||
      ((body.dropWhile isNamePart).dropWhile Text.isBlank).head? == some ':'
  · left
    rw [directives, if_pos plain]
  · right
    simp only [Bool.or_eq_true, List.isEmpty_iff, beq_iff_eq, not_or] at plain
    obtain ⟨⟨⟨name, blanks⟩, value⟩, notColon⟩ := plain
    refine ⟨_, _, (body.dropWhile isNamePart).dropWhile Text.isBlank, ?_, ⟨name, fun c => List.mem_takeWhile_imp⟩,
      ⟨blanks, fun c => List.mem_takeWhile_imp⟩, ?_⟩
    · rw [List.takeWhile_append_dropWhile, List.takeWhile_append_dropWhile]
    · obtain ⟨c, rest, starts⟩ := List.exists_cons_of_ne_nil value
      refine ⟨c, rest, starts, ?_, ?_⟩
      · have solid := List.head_dropWhile_not Text.isBlank value
        simpa [starts] using solid
      · rw [starts] at notColon
        simpa using notColon

theorem directives?_ofExpression {e : Text} (begins_ : e.strip.head? = some '#') :
    (ofExpression e).directives? = some (directives (bodyOf e.strip)) := by
  rw [ofExpression, ofStripped, if_pos begins_, bodyOf]
  split_ifs <;> rfl

/-- An expression that begins a block keeps all its characters, but for blanks
    that a colon takes the place of, exactly when no value of a shorthand in it
    has several lines. -/
theorem block_kept_iff {e : Text} (begins_ : e.strip.head? = some '#') :
    ∃ directive, (ofExpression e).directives? = some directive ∧
      (Kept (bodyOf e.strip) directive ↔
        ∀ name blanks value, Shorthand (bodyOf e.strip) name blanks value → '\n' ∉ value) := by
  refine ⟨_, directives?_ofExpression begins_, ?_⟩
  constructor
  · intro kept name blanks value short
    exact short.kept_iff.mp kept
  · intro lines
    rcases directives_eq_self_or (bodyOf e.strip) with same | ⟨name, blanks, value, short⟩
    · exact .inl same
    · exact short.kept_iff.mpr (lines name blanks value short)

/-- A value of two lines. -/
def folded : Text := lit " #foreach people\nas p "

theorem block_kept_iff_folded : folded.strip.head? = some '#' ∧
    (ofExpression folded).directives? = some (lit "foreach:people") ∧
      ¬ Kept (lit "foreach people\nas p") (lit "foreach:people") := by
  have begins_ : folded.strip.head? = some '#' := by decide +kernel
  have body : bodyOf folded.strip = lit "foreach people\nas p" := by decide +kernel
  have first : (ofExpression folded).directives? = some (lit "foreach:people") := by decide +kernel
  refine ⟨begins_, first, fun kept => ?_⟩
  obtain ⟨directive, found, kept_iff⟩ := block_kept_iff begins_
  obtain rfl := Option.some.inj (found.symm.trans first)
  rw [body] at kept_iff
  have short : Shorthand (lit "foreach people\nas p") (lit "foreach") (lit " ") (lit "people\nas p") :=
    ⟨rfl, ⟨by decide, List.all_eq_true.mp (by decide)⟩, ⟨by decide, List.all_eq_true.mp (by decide)⟩, 'p',
      lit "eople\nas p", by decide⟩
  exact kept_iff.mp kept _ _ _ short (by decide)

end Bindmark.Block
