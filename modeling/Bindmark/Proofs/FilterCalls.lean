import Bindmark.Proofs.Atoms

/-!
# Filters as nested calls

Filters behind an expression are read in one pass over its tokens. What that
pass writes is told here filter by filter: every filter becomes one call around
all that stands before it, and every argument that is left out becomes one
`undefined` in its place.
-/

namespace Bindmark.Filter

/-! ## Filters behind an expression -/

/-- A filter behind an expression: its name, and its arguments, of which any may
    be left out. -/
structure Link where
  name : Token
  arguments : List (List Token)
  named : name ≠ .pipe ∧ name ≠ .colon
  apart : ∀ argument ∈ arguments, .pipe ∉ argument ∧ .colon ∉ argument

namespace Link

/-- The tokens of a filter: a pipe before its name, and a colon before each of
    its arguments. -/
def tokens (f : Link) : List Token := .pipe :: f.name :: f.arguments.flatMap fun argument => .colon :: argument

/-- How an argument is written. -/
def argumentText (argument : List Token) : Text :=
  if argument = [] then lit "undefined" else argument.flatMap Token.text

/-- A filter called on what stands before it. -/
def call (lookup inner : Text) (f : Link) : Text :=
  lookup ++ lit "['" ++ f.name.text ++ lit "'](" ++ inner ++
    (f.arguments.flatMap fun argument => lit "," ++ argumentText argument) ++ lit ")"

end Link

/-! ## Reading a filter -/

/-- What has been written once a pipe or the end comes next. -/
def Progress.finished (p : Progress) : Text :=
  match p.place with
  | .base => p.written
  | .name => p.written ++ lit ")"
  | .arguments afterColon => p.written ++ omitted afterColon ++ lit ")"

theorem step_pipe (lookup : Text) (p : Progress) : p.step lookup .pipe = ⟨p.finished, .name⟩ := by
  obtain ⟨written, place⟩ := p
  cases place <;> rfl

theorem step_name {lookup : Text} {name : Token} (notPipe : name ≠ .pipe) (notColon : name ≠ .colon) (written : Text) :
    Progress.step lookup ⟨written, .name⟩ name = ⟨openCall lookup name.text written, .arguments false⟩ := by
  cases name with
  | pipe => exact absurd rfl notPipe
  | colon => exact absurd rfl notColon
  | _ => simp [Progress.step]

/-- Within an argument, tokens are written one after the other. -/
theorem foldl_step_argument (lookup : Text) : ∀ {argument : List Token} (written : Text) (afterColon : Bool),
    .pipe ∉ argument → .colon ∉ argument →
      argument.foldl (Progress.step lookup) ⟨written, .arguments afterColon⟩ =
        ⟨written ++ argument.flatMap Token.text, .arguments (afterColon && argument.isEmpty)⟩
  | [], written, afterColon, _, _ => by simp
  | token :: argument, written, afterColon, noPipe, noColon => by
    obtain ⟨notPipe, noPipe⟩ := not_or.mp (mt List.mem_cons.mpr noPipe)
    obtain ⟨notColon, noColon⟩ := not_or.mp (mt List.mem_cons.mpr noColon)
    have step : Progress.step lookup ⟨written, .arguments afterColon⟩ token =
        ⟨written ++ token.text, .arguments false⟩ := by
      cases token with
      | pipe => exact absurd rfl notPipe
      | colon => exact absurd rfl notColon
      | _ => rfl
    rw [List.foldl_cons, step, foldl_step_argument lookup _ false noPipe noColon]
    simp

theorem flatMap_text_append_omitted (argument : List Token) :
    argument.flatMap Token.text ++ omitted argument.isEmpty = Link.argumentText argument := by
  cases argument with
  | nil => simp [omitted, Link.argumentText]
  | cons token argument => simp [omitted, Link.argumentText]

/-- Arguments are written one after the other. One that is left out is only
    written once the next token comes. -/
theorem foldl_step_arguments (lookup : Text) {arguments : List (List Token)}
    (apart : ∀ argument ∈ arguments, .pipe ∉ argument ∧ .colon ∉ argument) (written : Text) (afterColon : Bool) :
    ∃ written' afterColon',
      (arguments.flatMap fun argument => .colon :: argument).foldl (Progress.step lookup)
        ⟨written, .arguments afterColon⟩ = ⟨written', .arguments afterColon'⟩ ∧
      written' ++ omitted afterColon' =
        written ++ omitted afterColon ++ arguments.flatMap fun argument => lit "," ++ Link.argumentText argument := by
  induction arguments generalizing written afterColon with
  | nil => exact ⟨written, afterColon, rfl, by simp⟩
  | cons argument arguments ih =>
    obtain ⟨noPipe, noColon⟩ := apart argument (List.mem_cons_self ..)
    have colon : Progress.step lookup ⟨written, .arguments afterColon⟩ .colon =
        ⟨written ++ omitted afterColon ++ lit ",", .arguments true⟩ := rfl
    obtain ⟨written', afterColon', ran, text⟩ := ih (fun other inside => apart other (List.mem_cons_of_mem _ inside))
      (written ++ omitted afterColon ++ lit "," ++ argument.flatMap Token.text) argument.isEmpty
    refine ⟨written', afterColon', ?_, ?_⟩
    · rw [List.flatMap_cons, List.cons_append, List.foldl_cons, List.foldl_append, colon,
        foldl_step_argument lookup _ true noPipe noColon, Bool.true_and, ran]
    · rw [text, List.flatMap_cons, ← flatMap_text_append_omitted argument]
      simp only [List.append_assoc]

/-- A filter becomes one call around all that has been written before it. -/
theorem finished_link (lookup : Text) (f : Link) (p : Progress) :
    (f.tokens.foldl (Progress.step lookup) p).finished = f.call lookup p.finished := by
  obtain ⟨written', afterColon', ran, text⟩ :=
    foldl_step_arguments lookup f.apart (openCall lookup f.name.text p.finished) false
  rw [Link.tokens, List.foldl_cons, List.foldl_cons, step_pipe, step_name f.named.1 f.named.2, ran]
  change written' ++ omitted afterColon' ++ lit ")" = _
  rw [text]
  simp [openCall, omitted, Link.call]

theorem finished_links (lookup : Text) (filters : List Link) (p : Progress) :
    ((filters.flatMap Link.tokens).foldl (Progress.step lookup) p).finished =
      filters.foldl (Link.call lookup) p.finished := by
  induction filters generalizing p with
  | nil => rfl
  | cons f filters ih => rw [List.flatMap_cons, List.foldl_append, ih, finished_link, List.foldl_cons]

theorem callsOfTokens_eq_finished (lookup : Text) (first : Token) (rest : List Token) :
    callsOfTokens lookup (first :: rest) = (rest.foldl (Progress.step lookup) ⟨first.text, .base⟩).finished := by
  rw [callsOfTokens, List.foldl_append, List.foldl_cons, List.foldl_nil, step_pipe]

/-! ## Nested calls -/

/-- An expression with filters behind it becomes the calls of its filters, the
    first around the expression and each of the others around the one before. -/
theorem calls_eq_nested (lookup : Text) {expression : Text} {base : List Token} {filters : List Link}
    (read : tokens expression = base ++ filters.flatMap Link.tokens) (based : base ≠ []) (plain : .pipe ∉ base)
    (some_ : filters ≠ []) :
    calls lookup expression = filters.foldl (Link.call lookup) (base.flatMap Token.text) := by
  obtain ⟨first, base, rfl⟩ := List.exists_cons_of_ne_nil based
  obtain ⟨f, filters, rfl⟩ := List.exists_cons_of_ne_nil some_
  have isPipe : .pipe ∈ tokens expression := by simp [read, Link.tokens]
  have several : 2 ≤ (tokens expression).length := by
    rw [read]
    simp [Link.tokens]
    omega
  have others : .pipe ∉ base := fun inside => plain (List.mem_cons_of_mem _ inside)
  rw [calls_eq_callsOfTokens lookup isPipe several, read, List.cons_append, callsOfTokens_eq_finished,
    List.foldl_append, finished_links, foldl_step_base lookup base _ others]
  rfl

/-- A choice with two filters behind it, the first of which leaves out two of
    its arguments. -/
def choice : Text := lit "a ? b : c || d | fit::'x:y': | upper"

def choiceBase : List Token := [.run (lit "a ? b"), .colon, .run (lit "c"), .or, .run (lit "d")]

def choiceFilters : List Link :=
  [⟨.run (lit "fit"), [[], [.quoted (lit "'x:y'")], []], by decide, by decide⟩,
    ⟨.run (lit "upper"), [], by decide, by decide⟩]

theorem calls_eq_nested_choice :
    tokens choice = choiceBase ++ choiceFilters.flatMap Link.tokens ∧ choiceBase ≠ [] ∧ .pipe ∉ choiceBase ∧
      choiceFilters ≠ [] ∧
      calls (lit "ko.filters") choice =
        lit "ko.filters['upper'](ko.filters['fit'](a ? b:c||d,undefined,'x:y',undefined))" := by
  have read : tokens choice = choiceBase ++ choiceFilters.flatMap Link.tokens := by decide +kernel
  have based : choiceBase ≠ [] := by decide
  have plain : .pipe ∉ choiceBase := by decide
  have some_ : choiceFilters ≠ [] := List.cons_ne_nil _ _
  refine ⟨read, based, plain, some_, ?_⟩
  rw [calls_eq_nested (lit "ko.filters") read based plain some_]
  decide

end Bindmark.Filter
