import Bindmark.Interpolation.Value
import Bindmark.Proofs.Atoms
import Bindmark.Proofs.Balance

/-!
# Filters in interpolated values

An interpolated value is a sum of strings and unwrapped expressions, and the
filters of its directive are read over the whole sum. What comes of that is
compared with a sum in which every expression has its own filters applied: up
to blanks they are the same exactly when no expression has a filter.
-/

namespace Bindmark.Interpolation

open Bindmark.Filter Reading

/-! ## Sums -/

/-- A sum of terms that begins with the empty string. -/
def sum (terms : List Text) : Text := lit "\"\"+" ++ Text.join (lit "+") terms

/-- A segment as a term of a sum in which every expression has its own filters
    applied. -/
def filteredTerm (s : Settings) : Segment → Text
  | .literal t => quoteLiteral t
  | .expression e => s.unwrapFunction ++ lit "(" ++ calls standardLookup e ++ lit ")"

/-- Expressions with balanced brackets and quotes, of which the filters can be
    read: every quote in them belongs to a complete string. -/
structure WellFormed (e : Text) : Prop where
  balanced : Balanced e
  whole : Whole e

theorem attributeValue_several (s : Settings) {segments : List Segment} (several : 2 ≤ segments.length) :
    attributeValue s segments = sum (segments.map (term s)) := by
  rcases segments with _ | ⟨a, _ | ⟨b, rest⟩⟩
  · simp at several
  · simp at several
  · unfold attributeValue
    split <;> simp_all [sum]

theorem attributeValue_ne_nil (s : Settings) {segments : List Segment} (several : 2 ≤ segments.length) :
    attributeValue s segments ≠ [] := by
  rw [attributeValue_several s several]
  simp [sum, lit]

/-- A literal without double quotes is written as it is. -/
theorem quoteLiteral_eq {t : Text} (noQuote : '"' ∉ t) : quoteLiteral t = lit "\"" ++ t ++ lit "\"" := by
  have same : Text.replaceChar '"' (lit "\\\"") t = t := by
    rw [Text.replaceChar]
    induction t with
    | nil => rfl
    | cons c t ih =>
      obtain ⟨other, noQuote⟩ := not_or.mp (mt List.mem_cons.mpr noQuote)
      rw [List.flatMap_cons, if_neg (Ne.symm other), ih noQuote, List.singleton_append]
  rw [quoteLiteral, same]

/-! ## Atoms of sums -/

/-- The atom between the terms of a sum. -/
def plus : Piece := .token (.run ['+'])

theorem atoms_plus (rest : Text) : atoms (lit "+" ++ rest) = plus :: atoms rest :=
  atoms_plain (lit "+") rest (by decide)

theorem atoms_join_cons {x : Text} {ts : List Text} (whole : Whole x) (more : ts ≠ []) :
    atoms (Text.join (lit "+") (x :: ts)) = atoms x ++ plus :: atoms (Text.join (lit "+") ts) := by
  obtain ⟨y, ts, rfl⟩ := List.exists_cons_of_ne_nil more
  have apart : (lit "+" ++ Text.join (lit "+") (y :: ts)).head? ≠ some '|' := by simp [lit]
  rw [Text.join, List.append_assoc, atoms_append x whole apart, atoms_plus]
  simp

theorem atoms_sum (terms : List Text) :
    atoms (sum terms) = .token (.quoted (lit "\"\"")) :: plus :: atoms (Text.join (lit "+") terms) := by
  have opening : sum terms = '"' :: lit "\"" ++ (lit "+" ++ Text.join (lit "+") terms) := by simp [sum, lit]
  rw [opening, atoms_quoted (.inl rfl) (by decide), atoms_plus]
  rfl

/-- What is found among the atoms of a sum, pluses apart, is found in a term. -/
theorem mem_atoms_join {p : Piece} (other : p ≠ plus) : ∀ ts : List Text, (∀ x ∈ ts, Whole x) →
    (p ∈ atoms (Text.join (lit "+") ts) ↔ ∃ x ∈ ts, p ∈ atoms x)
  | [], _ => by simp [Text.join, atoms_nil]
  | [x], _ => by simp [Text.join]
  | x :: y :: ts, whole => by
    have others := mem_atoms_join other (y :: ts) fun z inside => whole z (List.mem_cons_of_mem _ inside)
    rw [atoms_join_cons (whole x (List.mem_cons_self ..)) (by simp), List.mem_append, List.mem_cons, others]
    simp [other]

/-- Sums of terms with the same atoms have the same atoms. -/
theorem atoms_join_congr {f g : Segment → Text} : ∀ segments : List Segment,
    (∀ x ∈ segments, Whole (f x) ∧ Whole (g x) ∧ atoms (f x) = atoms (g x)) →
      atoms (Text.join (lit "+") (segments.map f)) = atoms (Text.join (lit "+") (segments.map g))
  | [], _ => rfl
  | [x], same => (same x (by simp)).2.2
  | x :: y :: rest, same => by
    obtain ⟨wholeF, wholeG, atomsEq⟩ := same x (by simp)
    have others := atoms_join_congr (y :: rest) fun z inside => same z (List.mem_cons_of_mem _ inside)
    simp only [List.map_cons] at others ⊢
    rw [atoms_join_cons wholeF (by simp), atoms_join_cons wholeG (by simp), atomsEq, others]

theorem getLast?_atoms_join {ts : List Text} (some_ : ts ≠ []) (whole : ∀ x ∈ ts, Whole x)
    (ends : ∀ x ∈ ts, ∃ p, p ≠ .token .pipe ∧ (atoms x).getLast? = some p) :
    ∃ p, p ≠ .token .pipe ∧ (atoms (Text.join (lit "+") ts)).getLast? = some p := by
  induction ts with
  | nil => exact absurd rfl some_
  | cons x ts ih =>
    by_cases more : ts = []
    · subst more
      exact ends x (by simp)
    · obtain ⟨p, other, last⟩ := ih more (fun y inside => whole y (List.mem_cons_of_mem _ inside))
        fun y inside => ends y (List.mem_cons_of_mem _ inside)
      refine ⟨p, other, ?_⟩
      rw [atoms_join_cons (whole x (by simp)) more, List.getLast?_append, List.getLast?_cons, last]
      simp

/-! ## Terms -/

theorem complete_string {t : Text} (noQuote : '"' ∉ t) (noEscape : '\\' ∉ t) : Complete '"' (t ++ lit "\"") :=
  complete_closed noQuote noEscape

theorem atoms_string {t : Text} (noQuote : '"' ∉ t) (noEscape : '\\' ∉ t) :
    atoms (lit "\"" ++ t ++ lit "\"") = [.token (.quoted (lit "\"" ++ t ++ lit "\""))] := by
  have string := atoms_quoted (.inl rfl) (complete_string noQuote noEscape) []
  rw [List.append_nil, atoms_nil] at string
  simpa [lit] using string

theorem atoms_call {name e : Text} (plain : name.all isPlain = true) (whole : Whole e) :
    atoms (name ++ lit "(" ++ e ++ lit ")") = solid (name ++ lit "(") ++ (atoms e ++ [.token (.run [')'])]) := by
  have plain' : (name ++ lit "(").all isPlain = true := by
    rw [List.all_append, plain]
    decide
  have closing : atoms (lit ")") = [.token (.run [')'])] := by
    have run := atoms_plain (lit ")") [] (by decide)
    rw [List.append_nil, atoms_nil] at run
    exact run
  rw [List.append_assoc, atoms_plain _ _ plain', atoms_append e whole (by decide), closing]

theorem whole_of_atoms_eq {a b : Text} (whole : Whole a) (same : atoms b = atoms a) : Whole b := by
  rw [whole_iff] at whole ⊢
  rwa [same]

theorem whole_call {name e : Text} (plain : name.all isPlain = true) (whole : Whole e) :
    Whole (name ++ lit "(" ++ e ++ lit ")") := by
  rw [whole_iff] at whole ⊢
  intro mark inside
  rw [atoms_call plain (whole_iff.mpr whole)] at inside
  rcases List.mem_append.mp inside with named | later
  · simp [solid] at named
  · rcases List.mem_append.mp later with within | bracket
    · exact whole mark within
    · simp at bracket

theorem whole_string {t : Text} (noQuote : '"' ∉ t) (noEscape : '\\' ∉ t) : Whole (lit "\"" ++ t ++ lit "\"") := by
  rw [whole_iff, atoms_string noQuote noEscape]
  simp

/-! ## Filters over a sum -/

/-- Segments whose literals are written as they are, and whose expressions are
    well-formed. -/
structure Segments (segments : List Segment) : Prop where
  noQuote : ∀ t, .literal t ∈ segments → '"' ∉ t
  noEscape : ∀ t, .literal t ∈ segments → '\\' ∉ t
  expression : ∀ e, .expression e ∈ segments → WellFormed e

variable {s : Settings} {segments : List Segment}

theorem isPlain_unwrap (unwraps : s.unwrapFunction = lit "unwrap") : s.unwrapFunction.all isPlain = true := by
  rw [unwraps]
  decide

theorem whole_term (unwraps : s.unwrapFunction = lit "unwrap") (fine : Segments segments) :
    ∀ x ∈ segments, Whole (term s x)
  | .literal t, inside => by
    rw [term, quoteLiteral_eq (fine.noQuote t inside)]
    exact whole_string (fine.noQuote t inside) (fine.noEscape t inside)
  | .expression e, inside => whole_call (isPlain_unwrap unwraps) (fine.expression e inside).whole

theorem whole_terms (unwraps : s.unwrapFunction = lit "unwrap") (fine : Segments segments) :
    ∀ x ∈ segments.map (term s), Whole x :=
  List.forall_mem_map.mpr (whole_term unwraps fine)

/-- A pipe among the atoms of a term is a pipe of its expression. -/
theorem pipe_mem_term (unwraps : s.unwrapFunction = lit "unwrap") (fine : Segments segments) :
    ∀ x ∈ segments, (.token .pipe ∈ atoms (term s x) ↔ ∃ e, x = .expression e ∧ .pipe ∈ tokens e)
  | .literal t, inside => by
    rw [term, quoteLiteral_eq (fine.noQuote t inside), atoms_string (fine.noQuote t inside) (fine.noEscape t inside)]
    simp
  | .expression e, inside => by
    rw [term, atoms_call (isPlain_unwrap unwraps) (fine.expression e inside).whole, List.mem_append, List.mem_append,
      pipe_mem_atoms]
    simp [solid]

theorem term_ends (unwraps : s.unwrapFunction = lit "unwrap") (fine : Segments segments) :
    ∀ x ∈ segments, ∃ p, p ≠ .token .pipe ∧ (atoms (term s x)).getLast? = some p
  | .literal t, inside => by
    rw [term, quoteLiteral_eq (fine.noQuote t inside), atoms_string (fine.noQuote t inside) (fine.noEscape t inside)]
    exact ⟨_, by simp, List.getLast?_singleton⟩
  | .expression e, inside => by
    rw [term, atoms_call (isPlain_unwrap unwraps) (fine.expression e inside).whole, ← List.append_assoc]
    exact ⟨.token (.run [')']), by simp, List.getLast?_concat ..⟩

theorem whole_sum {terms : List Text} (whole : ∀ x ∈ terms, Whole x) : Whole (sum terms) := by
  rw [whole_iff]
  intro mark inside
  rw [atoms_sum] at inside
  simp only [List.mem_cons, reduceCtorEq, plus, false_or] at inside
  obtain ⟨x, stands, found⟩ := (mem_atoms_join (by simp [plus]) _ whole).mp inside
  exact whole_iff.mp (whole x stands) mark found

/-- The pipes of a sum are those of its expressions. -/
theorem pipe_mem_sum (unwraps : s.unwrapFunction = lit "unwrap") (fine : Segments segments) :
    .pipe ∈ tokens (sum (segments.map (term s))) ↔ ∃ e, .expression e ∈ segments ∧ .pipe ∈ tokens e := by
  have whole := whole_terms unwraps fine
  rw [← pipe_mem_atoms, atoms_sum]
  simp only [List.mem_cons, reduceCtorEq, plus, Piece.token.injEq, false_or]
  rw [mem_atoms_join (by simp [plus]) _ whole]
  constructor
  · rintro ⟨x, inside, found⟩
    obtain ⟨segment, stands, rfl⟩ := List.mem_map.mp inside
    obtain ⟨e, rfl, isPipe⟩ := (pipe_mem_term unwraps fine segment stands).mp found
    exact ⟨e, stands, isPipe⟩
  · rintro ⟨e, stands, isPipe⟩
    exact ⟨_, List.mem_map_of_mem stands, (pipe_mem_term unwraps fine _ stands).mpr ⟨e, rfl, isPipe⟩⟩

/-- A text that does not end in a pipe has a name after each of its pipes. -/
theorem exists_named_after {e : Text} (whole : Whole e) {p : Piece} (last : (atoms e).getLast? = some p)
    (other : p ≠ .token .pipe) {before after : List Token} (split : tokens e = before ++ .pipe :: after) :
    ∃ token ∈ after, token ≠ .pipe := by
  by_contra none
  push Not at none
  obtain ⟨front, x, snoc⟩ : ∃ front x, Token.pipe :: after = front ++ [x] :=
    ⟨_, _, (List.dropLast_append_getLast (List.cons_ne_nil _ _)).symm⟩
  have isPipe : x = .pipe := by
    have inside : x ∈ Token.pipe :: after := by simp [snoc]
    rcases List.mem_cons.mp inside with same | later
    · exact same
    · exact none x later
  rw [atoms_eq_tokens whole, split, snoc, isPipe, ← List.append_assoc, List.flatMap_append] at last
  simp only [List.flatMap_cons, List.flatMap_nil, Piece.atoms, List.append_nil, List.getLast?_concat,
    Option.some.injEq] at last
  exact other last.symm

/-- With a filter in one of its expressions, a sum becomes a call of that filter. -/
theorem calls_sum (unwraps : s.unwrapFunction = lit "unwrap") (fine : Segments segments) (some_ : segments ≠ [])
    (isPipe : .pipe ∈ tokens (sum (segments.map (term s)))) :
    standardLookup ++ lit "['" <+: calls standardLookup (sum (segments.map (term s))) := by
  have whole := whole_terms unwraps fine
  have ends : ∀ x ∈ segments.map (term s), ∃ p, p ≠ .token .pipe ∧ (atoms x).getLast? = some p :=
    List.forall_mem_map.mpr (term_ends unwraps fine)
  obtain ⟨before, after, split⟩ := List.append_of_mem isPipe
  have based : before ≠ [] := by
    rintro rfl
    have byTokens := atoms_eq_tokens (whole_sum whole)
    rw [split, atoms_sum] at byTokens
    simp [Piece.atoms] at byTokens
  obtain ⟨p, other, last⟩ := getLast?_atoms_join (by simpa using some_) whole ends
  have lastSum : (atoms (sum (segments.map (term s)))).getLast? = some p := by
    rw [atoms_sum, List.getLast?_cons, List.getLast?_cons, last]
    simp
  have named := exists_named_after (whole_sum whole) lastSum other split
  exact calls_of_pipe standardLookup split based named

/-- Filters are read over the whole of an interpolated value. Up to blanks
    outside strings, that gives every expression its own filters exactly when
    no expression has one. -/
theorem compact_calls_iff (unwraps : s.unwrapFunction = lit "unwrap") (several : 2 ≤ segments.length)
    (fine : Segments segments) :
    compact (calls standardLookup (attributeValue s segments)) = compact (sum (segments.map (filteredTerm s))) ↔
      ∀ e, .expression e ∈ segments → .pipe ∉ tokens e := by
  have whole := whole_terms unwraps fine
  rw [attributeValue_several s several]
  constructor
  · intro same e stands isPipe
    have piped := (pipe_mem_sum unwraps fine).mpr ⟨e, stands, isPipe⟩
    have some_ : segments ≠ [] := by
      rintro rfl
      cases stands
    obtain ⟨rest, called⟩ := calls_sum unwraps fine some_ piped
    have first : atoms (calls standardLookup (sum (segments.map (term s)))) =
        solid ['f'] ++ atoms (lit "ilters['" ++ rest) := by
      rw [← called]
      exact atoms_plain ['f'] (lit "ilters['" ++ rest) (by decide)
    rw [compact, compact, first, atoms_sum] at same
    simp [solid_singleton (c := 'f') (by decide), Piece.text, Token.text, lit] at same
  · intro plain
    have noPipe : .pipe ∉ tokens (sum (segments.map (term s))) := fun inside => by
      obtain ⟨e, stands, isPipe⟩ := (pipe_mem_sum unwraps fine).mp inside
      exact plain e stands isPipe
    have terms : ∀ x ∈ segments, Whole (term s x) ∧ Whole (filteredTerm s x) ∧
        atoms (term s x) = atoms (filteredTerm s x) := by
      intro x inside
      cases x with
      | literal t => exact ⟨whole_term unwraps fine _ inside, whole_term unwraps fine _ inside, rfl⟩
      | expression e =>
        have wholeE := (fine.expression e inside).whole
        have same := atoms_calls standardLookup wholeE (plain e inside)
        have wholeCalls := whole_of_atoms_eq wholeE same
        refine ⟨whole_term unwraps fine _ inside, whole_call (isPlain_unwrap unwraps) wholeCalls, ?_⟩
        rw [term, filteredTerm, atoms_call (isPlain_unwrap unwraps) wholeE,
          atoms_call (isPlain_unwrap unwraps) wholeCalls, same]
    rw [compact, compact, atoms_calls standardLookup (whole_sum whole) noPipe, atoms_sum, atoms_sum,
      atoms_join_congr _ terms]

/-! ## Sums within directive strings -/

theorem sealed_join {ts : List Text} (sealed : ∀ x ∈ ts, Sealed x) : Sealed (Text.join (lit "+") ts) := by
  induction ts with
  | nil => exact sealed_nil
  | cons x ts ih =>
    have others := ih fun y inside => sealed y (List.mem_cons_of_mem _ inside)
    cases ts with
    | nil => exact sealed x (by simp)
    | cons y ts =>
      have plus : Sealed (lit "+") := ⟨by decide, by decide, by decide⟩
      exact ((sealed x (by simp)).append plus).append others

/-- An interpolated value is part of one unit of a directive string. -/
theorem sealed_attributeValue (unwraps : s.unwrapFunction = lit "unwrap") (several : 2 ≤ segments.length)
    (fine : Segments segments) : Sealed (attributeValue s segments) := by
  have opening : Sealed (lit "\"\"+") := ⟨by decide, by decide, by decide⟩
  rw [attributeValue_several s several]
  refine opening.append (sealed_join fun x inside => ?_)
  obtain ⟨segment, stands, rfl⟩ := List.mem_map.mp inside
  cases segment with
  | literal t =>
    rw [term, quoteLiteral_eq (fine.noQuote t stands)]
    exact sealed_string (fine.noQuote t stands) (fine.noEscape t stands)
  | expression e =>
    rw [term, unwraps]
    exact Sealed.call ⟨by decide, by decide, by decide⟩ (fine.expression e stands).balanced

end Bindmark.Interpolation
