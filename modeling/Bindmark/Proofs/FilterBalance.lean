import Bindmark.Proofs.FilterCalls
import Bindmark.Proofs.Interpolated
import Mathlib.Algebra.Ring.Int.Defs
import Mathlib.Algebra.Ring.Nat

/-!
# Brackets of filter calls

A call is opened where a filter has its name, and a bracket is closed at every
pipe after the first one and at the end. So each pipe without a name behind it
closes one bracket too many. A name is written in quotes: what it opens or
closes does not count there, and what belongs to it elsewhere in the expression
is without its other half. Filters keep an expression balanced when neither
happens, and only if all that happens cancels out.
-/

namespace Bindmark.Filter

open Reading

/-! ## Reading tokens -/

/-- Read from outside quotes, a text ends outside quotes. -/
def StaysCode (t : Text) : Prop := ∀ depth, ∃ depth', (code depth).read t = code depth'

/-- A text leads nowhere else: it is passed over outside quotes. -/
def Still (t : Text) : Prop := ∀ depth, (code depth).read t = code depth

theorem Still.staysCode {t : Text} (still : Still t) : StaysCode t := fun depth => ⟨depth, still depth⟩

theorem Still.leads {t : Text} (still : Still t) {depth depth' : Nat} (leads : Leads depth t depth') :
    depth = depth' := by
  have same := (still depth).symm.trans leads.read
  injection same

/-- A string body is read to its closing quote. -/
theorem read_take {mark : Char} (isMark : IsMark mark) (depth : Nat) {t : Text} {n : Nat}
    (found : bodyLength? mark t = some n) : (quoted depth mark false).read (t.take n) = code depth := by
  have notEscape : mark ≠ '\\' := by rcases isMark with rfl | rfl <;> decide
  fun_induction bodyLength? mark t generalizing n with
  | case1 => cases found
  | case2 =>
    cases found
    simp [step, notEscape]
  | case3 => cases found
  | case4 =>
    cases found
    simp [step, notEscape]
  | case5 => cases found
  | case6 d rest other _ ih =>
    obtain ⟨m, inner, rfl⟩ := Option.map_eq_some_iff.mp found
    simpa [step] using ih inner
  | case7 c d rest other plain ih =>
    obtain ⟨m, inner, rfl⟩ := Option.map_eq_some_iff.mp found
    have later := ih inner
    simpa [step, other, plain] using later

theorem IsMark.mem_quotes {mark : Char} (isMark : IsMark mark) : mark ∈ quotes := by
  rcases isMark with rfl | rfl <;> simp [quotes]

theorem IsMark.step {mark : Char} (isMark : IsMark mark) (depth : Nat) :
    (code depth).step mark = quoted depth mark false := if_pos isMark.mem_quotes

theorem still_quoted {mark : Char} {body : Text} (isMark : IsMark mark) (complete : Complete mark body) :
    Still (mark :: body) := by
  intro depth
  have closes := read_take isMark depth complete
  rwa [List.take_length, ← isMark.step depth] at closes

theorem staysCode_of_noQuotes {t : Text} (plain : ∀ c ∈ t, c ∉ quotes) : StaysCode t := by
  induction t with
  | nil => exact fun depth => ⟨depth, rfl⟩
  | cons c t ih =>
    intro depth
    have other := plain c (List.mem_cons_self ..)
    have later := ih fun d inside => plain d (List.mem_cons_of_mem _ inside)
    rw [read_cons, step, if_neg other]
    split_ifs
    · exact later _
    · exact later _
    · exact later _

theorem still_of_allBlank {t : Text} (blank : t.allBlank) : Still t := by
  have marks : ((quotes ++ openers ++ closers).all fun c => !Text.isBlank c) = true := by decide
  induction t with
  | nil => exact fun _ => rfl
  | cons c t ih =>
    intro depth
    rw [Text.allBlank, List.all_cons, Bool.and_eq_true] at blank
    have solid (inside : c ∈ quotes ++ openers ++ closers) : False := by
      have solid := List.all_eq_true.mp marks c inside
      rw [blank.1] at solid
      cases solid
    simp only [List.mem_append] at solid
    rw [read_cons, step, if_neg fun h => solid (.inl (.inl h)), if_neg fun h => solid (.inl (.inr h)),
      if_neg fun h => solid (.inr h)]
    exact ih blank.2 depth

/-- A token that holds no other quotes than those of a complete string. -/
structure Token.Legible (token : Token) : Prop where
  shaped : token.Shaped
  marks : ∀ t, token = .run t → '\x60' ∉ t

theorem notMem_quotes_of_isPlain {c : Char} (plain : isPlain c = true) (other : c ≠ '\x60') : c ∉ quotes := by
  simp only [isPlain, Bool.and_eq_true, bne_iff_ne] at plain
  simp [quotes, plain.1.2, plain.2, other]

/-- Apart from complete strings, legible tokens hold no quotes at all. -/
theorem Token.Legible.noQuotes {token : Token} (legible : token.Legible) (other : ∀ t, token ≠ .quoted t) :
    ∀ c ∈ token.text, c ∉ quotes := by
  obtain ⟨shaped, marks⟩ := legible
  cases token with
  | quoted t => exact absurd rfl (other t)
  | run t =>
    intro c inside
    exact notMem_quotes_of_isPlain (List.all_eq_true.mp shaped c inside) fun same => marks t rfl (same ▸ inside)
  | _ => simp [Token.text, lit, quotes]

theorem Token.Legible.staysCode {token : Token} (legible : token.Legible) : StaysCode token.text := by
  cases token with
  | quoted t =>
    obtain ⟨mark, body, isMark, complete, rfl⟩ := legible.shaped
    exact (still_quoted isMark complete).staysCode
  | _ => exact staysCode_of_noQuotes (legible.noQuotes (by simp))

/-! ## Blanks between tokens -/

theorem allBlank_of_mem_pieces {t blank : Text} (inside : .blank blank ∈ pieces t) : blank.allBlank := by
  obtain ⟨c, rest, first⟩ := exists_firstPiece inside
  unfold firstPiece at first
  split at first
  · split at first <;> cases first
  · split at first
    · split at first <;> cases first
    · split at first
      · cases first
      · split at first
        · rename_i isBlank
          cases first
          rw [Text.allBlank, List.all_cons, isBlank, Bool.true_and]
          exact List.all_takeWhile
        · cases first

/-- What lies between the tokens of an expression leads nowhere. -/
theorem leads_tokens {depth depth' : Nat} : ∀ {ps : List Piece}, (∀ token, .token token ∈ ps → token.Legible) →
    (∀ blank, .blank blank ∈ ps → Text.allBlank blank) → (∀ mark, .stray mark ∉ ps) →
    Leads depth (ps.flatMap Piece.text) depth' → Leads depth ((ps.filterMap Piece.token?).flatMap Token.text) depth'
  | [], _, _, _, leads => leads
  | piece :: ps, legible, blanks, complete, leads => by
    have others {between : Nat} (later : Leads between (ps.flatMap Piece.text) depth') :=
      leads_tokens (fun token inside => legible token (List.mem_cons_of_mem _ inside))
        (fun blank inside => blanks blank (List.mem_cons_of_mem _ inside))
        (fun mark inside => complete mark (List.mem_cons_of_mem _ inside)) later
    rw [List.flatMap_cons] at leads
    cases piece with
    | token token =>
      obtain ⟨between, read⟩ := (legible token (List.mem_cons_self ..)).staysCode depth
      obtain ⟨here, later⟩ := leads.cut read
      exact here.append (others later)
    | blank blank =>
      have still := still_of_allBlank (blanks blank (List.mem_cons_self ..))
      exact others (leads.cut (still depth)).2
    | stray mark => exact absurd (List.mem_cons_self ..) (complete mark)

/-! ## Names of filters -/

/-- The tokens that stand right behind a pipe, also the first one if `piped`. -/
def behindPipes : Bool → List Token → List Token
  | _, [] => []
  | piped, token :: ts => (if piped then [token] else []) ++ behindPipes (token = .pipe) ts

/-- The tokens that stand where a filter has its name, the end read as one more
    pipe. A pipe that an expression begins with is part of its base. -/
def nameTokens (ts : List Token) : List Token := behindPipes false (ts.drop 1 ++ [.pipe])

/-- A name is a string of its own when it is put in quotes. -/
def Token.Quotable (name : Token) : Prop := Balanced (lit "'" ++ name.text ++ lit "'")

/-- How many more brackets are closed than opened by the call of which `name`
    stands in the place of the name. -/
def surplus (name : Token) : Int := if name = .pipe then 1 else net name.text

/-- How many brackets have to be open before calls with these names, for those
    that close more than they open. -/
def missing (names : List Token) : Nat := (names.map fun name => (surplus name).toNat).sum

/-- How many brackets are left open by those that open more than they close. -/
def leftOpen (names : List Token) : Nat := (names.map fun name => (-surplus name).toNat).sum

/-- How many calls are open where a reader stands. -/
def Place.opened : Place → Nat
  | .arguments _ => 1
  | _ => 0

theorem behindPipes_of_noPipe : ∀ {ts : List Token}, .pipe ∉ ts → behindPipes false (ts ++ [.pipe]) = []
  | [], _ => rfl
  | token :: ts, plain => by
    obtain ⟨other, others⟩ := not_or.mp (mt List.mem_cons.mpr plain)
    have same : decide (token = .pipe) = false := decide_eq_false (Ne.symm other)
    rw [List.cons_append, behindPipes, same, behindPipes_of_noPipe others]
    rfl

/-! ## Calls -/

theorem leads_closing (depth : Nat) : Leads (depth + 1) (lit ")") depth := by
  have closing : Leads 1 (lit ")") 0 := ⟨by decide, by decide⟩
  simpa [Nat.add_comm] using closing.raise depth

theorem leads_of_balanced {t : Text} (balanced : Balanced t) (depth : Nat) : Leads depth t depth := by
  simpa using (balanced_iff_leads.mp balanced).raise depth

theorem leads_omitted (afterColon : Bool) (depth : Nat) : Leads depth (omitted afterColon) depth := by
  have word : Balanced (lit "undefined") := by decide
  cases afterColon with
  | true => exact leads_of_balanced word depth
  | false => exact ⟨rfl, matched_nil _⟩

/-- The call of a filter opens one bracket, however deep it stands. -/
theorem leads_openCall {lookup : Text} (table : Balanced lookup) {name : Token} (quotable : name.Quotable)
    {written : Text} {depth depth' : Nat} (leads : Leads (depth + 1) written depth') :
    Leads depth (openCall lookup name.text written) depth' := by
  have bracket : Leads 0 (lit "[") 1 := ⟨by decide, by decide⟩
  have call : Leads 1 (lit "](") 1 := ⟨by decide, by decide⟩
  have opening := ((leads_of_balanced table 0).append bracket).append (leads_of_balanced quotable 1)
  have whole := (opening.append call).raise depth
  rw [Nat.zero_add, Nat.add_comm] at whole
  have text : openCall lookup name.text written =
      (lookup ++ lit "[" ++ (lit "'" ++ name.text ++ lit "'") ++ lit "](") ++ written := by
    simp [openCall, lit]
  rw [text]
  exact whole.append leads

/-- What a token adds to the surplus of the calls, if `piped` in the place of a
    name. -/
def added (piped : Bool) (token : Token) : Int := if piped then surplus token else 0

/-- One more token. What has been written keeps up with what has been read, one
    bracket deeper within a call. A token in the place of a name puts the two
    apart: what is closed too much has to be open at the `start`, and what is
    opened too much is left over. -/
theorem leads_step {lookup : Text} (table : Balanced lookup) {p : Progress} {token : Token} {start depth depth' : Nat}
    (written : Leads start p.written (depth + p.place.opened)) (read : Leads depth token.text depth')
    (named : p.place = .name → token ≠ .pipe → token.Quotable) :
    Leads (start + (added (p.place = .name) token).toNat) (p.step lookup token).written
      (depth' + (-added (p.place = .name) token).toNat + (p.step lookup token).place.opened) := by
  have pipe : Still (lit "|") := fun _ => rfl
  have colon : Still (lit ":") := fun _ => rfl
  obtain ⟨text, place⟩ := p
  cases place with
  | base =>
    by_cases isPipe : token = .pipe
    · subst isPipe
      rw [← pipe.leads read]
      exact written
    · have here : Progress.step lookup ⟨text, .base⟩ token = ⟨text ++ token.text, .base⟩ := by
        cases token <;> first | rfl | exact absurd rfl isPipe
      rw [here]
      exact written.append read
  | name =>
    by_cases isPipe : token = .pipe
    · subst isPipe
      rw [← pipe.leads read]
      exact (written.raise 1).append (leads_closing depth)
    · have here : Progress.step lookup ⟨text, .name⟩ token =
          ⟨openCall lookup token.text text, .arguments (token = .colon)⟩ := by
        cases token <;> first | rfl | exact absurd rfl isPipe
      have apart : (depth' : Int) = depth + surplus token := by
        rw [surplus, if_neg isPipe]
        exact read.net_eq
      have same : depth + ((surplus token).toNat + 1) = depth' + (-surplus token).toNat + 1 := by omega
      have raised := written.raise ((surplus token).toNat + 1)
      change Leads _ _ (depth + ((surplus token).toNat + 1)) at raised
      rw [same] at raised
      rw [here]
      exact leads_openCall table (named rfl isPipe) raised
  | arguments afterColon =>
    by_cases isPipe : token = .pipe
    · subst isPipe
      rw [← pipe.leads read]
      exact (written.append (leads_omitted afterColon _)).append (leads_closing depth)
    · by_cases isColon : token = .colon
      · subst isColon
        rw [← colon.leads read]
        have comma : Balanced (lit ",") := by decide
        exact (written.append (leads_omitted afterColon _)).append (leads_of_balanced comma _)
      · have here :
            Progress.step lookup ⟨text, .arguments afterColon⟩ token = ⟨text ++ token.text, .arguments false⟩ := by
          cases token <;> first | rfl | exact absurd rfl isPipe | exact absurd rfl isColon
        rw [here]
        exact written.append (read.raise 1)

/-- A run over tokens, from any place. -/
theorem leads_foldl {lookup : Text} (table : Balanced lookup) : ∀ {ts : List Token} {p : Progress}
    {start depth depth' : Nat}, Leads start p.written (depth + p.place.opened) →
    (∀ token ∈ ts, StaysCode token.text) → Leads depth (ts.flatMap Token.text) depth' →
    (∀ name ∈ behindPipes (p.place = .name) ts, name ≠ .pipe → name.Quotable) →
      Leads (start + missing (behindPipes (p.place = .name) ts))
        (ts.foldl (Progress.step lookup) p).written
        (depth' + leftOpen (behindPipes (p.place = .name) ts) +
          (ts.foldl (Progress.step lookup) p).place.opened)
  | [], p, start, depth, depth', written, _, leads, _ => by
    obtain rfl : depth = depth' := Still.leads (t := []) (fun _ => rfl) leads
    simpa [behindPipes, missing, leftOpen] using written
  | token :: ts, p, start, depth, depth', written, legible, leads, named => by
    rw [List.flatMap_cons] at leads
    obtain ⟨between, stays⟩ := legible token (List.mem_cons_self ..) depth
    obtain ⟨here, later⟩ := leads.cut stays
    have stepped := leads_step table written here fun isName => named token (by simp [behindPipes, isName])
    have ran := leads_foldl table stepped (fun other inside => legible other (List.mem_cons_of_mem _ inside))
      (later.raise _) (by
        intro name inside
        refine named name ?_
        simp only [place_step_eq_name_iff] at inside
        rw [behindPipes]
        exact List.mem_append_right _ inside)
    simp only [place_step_eq_name_iff] at ran
    rw [List.foldl_cons, behindPipes]
    by_cases isName : p.place = .name
    · simpa [isName, added, missing, leftOpen, Nat.add_assoc, Nat.add_comm, Nat.add_left_comm] using ran
    · simpa [isName, added] using ran

/-! ## Expressions -/

/-- Expressions with balanced brackets, and with no other quotes than those of
    complete strings in single or double quotes. -/
structure Bracketed (e : Text) : Prop extends Interpolation.WellFormed e where
  marks : ∀ t, .run t ∈ tokens e → '\x60' ∉ t

theorem Bracketed.legible {e : Text} (bracketed : Bracketed e) {token : Token} (inside : token ∈ tokens e) :
    token.Legible := by
  refine ⟨shaped_of_mem_tokens inside, ?_⟩
  rintro t rfl
  exact bracketed.marks t inside

/-- The tokens of an expression are balanced one after the other. -/
theorem Bracketed.leads {e : Text} (bracketed : Bracketed e) : Leads 0 ((tokens e).flatMap Token.text) 0 := by
  have whole : Leads 0 ((pieces e).flatMap Piece.text) 0 := by
    rw [text_pieces]
    exact balanced_iff_leads.mp bracketed.balanced
  refine leads_tokens (fun token inside => ?_) (fun blank inside => allBlank_of_mem_pieces inside) bracketed.whole whole
  exact bracketed.legible (List.mem_filterMap.mpr ⟨_, inside, rfl⟩)

theorem leads_callsOfTokens {lookup : Text} (table : Balanced lookup) {ts : List Token}
    (legible : ∀ token ∈ ts, StaysCode token.text) (leads : Leads 0 (ts.flatMap Token.text) 0)
    (quotable : ∀ name ∈ nameTokens ts, name ≠ .pipe → name.Quotable) :
    Leads (missing (nameTokens ts)) (callsOfTokens lookup ts) (leftOpen (nameTokens ts)) := by
  cases ts with
  | nil => simpa [nameTokens, behindPipes, callsOfTokens, missing, leftOpen] using leads
  | cons first rest =>
    have pipe : Still (lit "|") := fun _ => rfl
    rw [List.flatMap_cons] at leads
    obtain ⟨depth, stays⟩ := legible first (List.mem_cons_self ..) 0
    obtain ⟨here, later⟩ := leads.cut stays
    have closing : Leads depth ((rest ++ [Token.pipe]).flatMap Token.text) 0 := by
      rw [List.flatMap_append]
      exact later.append ⟨pipe 0, by decide⟩
    have ran := leads_foldl table (p := ⟨first.text, .base⟩) here (fun token inside => by
      rcases List.mem_append.mp inside with inside | inside
      · exact legible token (List.mem_cons_of_mem _ inside)
      · rw [List.mem_singleton.mp inside]
        exact pipe.staysCode) closing quotable
    rw [List.foldl_append, List.foldl_cons, List.foldl_nil, step_pipe, Nat.zero_add, Nat.zero_add] at ran
    rw [callsOfTokens, List.foldl_append, List.foldl_cons, List.foldl_nil, step_pipe]
    exact ran

theorem leads_calls {lookup : Text} (table : Balanced lookup) {e : Text} (bracketed : Bracketed e)
    (quotable : ∀ name ∈ nameTokens (tokens e), name ≠ .pipe → name.Quotable) :
    Leads (missing (nameTokens (tokens e))) (calls lookup e) (leftOpen (nameTokens (tokens e))) := by
  have unchanged (plain : nameTokens (tokens e) = []) :
      Leads (missing (nameTokens (tokens e))) e (leftOpen (nameTokens (tokens e))) := by
    rw [plain]
    exact balanced_iff_leads.mp bracketed.balanced
  rw [calls]
  split_ifs with isPipe
  · split
    · rename_i none_
      exact unchanged (by rw [none_]; rfl)
    · rename_i single
      exact unchanged (by rw [single]; rfl)
    · exact leads_callsOfTokens table (fun token inside => (bracketed.legible inside).staysCode) bracketed.leads
        quotable
  · refine unchanged (behindPipes_of_noPipe fun inside => isPipe ?_)
    exact contains_of_pipe (List.mem_of_mem_drop inside)

theorem sum_surplus (names : List Token) : (names.map surplus).sum =
    (missing names : Int) - leftOpen names := by
  induction names with
  | nil => rfl
  | cons name names ih =>
    simp only [missing, leftOpen, List.map_cons, List.sum_cons] at ih ⊢
    omega

theorem missing_leftOpen_eq_zero {names : List Token} (even : ∀ name ∈ names, surplus name = 0) :
    missing names = 0 ∧ leftOpen names = 0 := by
  induction names with
  | nil => exact ⟨rfl, rfl⟩
  | cons name names ih =>
    have here := even name (List.mem_cons_self ..)
    obtain ⟨none_, closed⟩ := ih fun other inside => even other (List.mem_cons_of_mem _ inside)
    simp only [missing, leftOpen, List.map_cons, List.sum_cons, here] at none_ closed ⊢
    omega

/-- The calls of an expression are balanced only if the tokens in the places of
    names close no more brackets than they open, and they are whenever each of
    these tokens does. -/
theorem balanced_calls {e : Text} (bracketed : Bracketed e)
    (quotable : ∀ name ∈ nameTokens (tokens e), name ≠ .pipe → name.Quotable) :
    (Balanced (calls standardLookup e) → ((nameTokens (tokens e)).map surplus).sum = 0) ∧
      ((∀ name ∈ nameTokens (tokens e), surplus name = 0) → Balanced (calls standardLookup e)) := by
  have table : Balanced standardLookup := by decide
  have leads := leads_calls table bracketed quotable
  constructor
  · intro balanced
    have same := leads.unique (leads_of_balanced balanced _)
    rw [sum_surplus, same]
    omega
  · intro even
    obtain ⟨none_, closed⟩ := missing_leftOpen_eq_zero even
    rw [none_, closed] at leads
    exact balanced_iff_leads.mpr leads

-- A bracket behind a filter becomes part of its name.
example : calls standardLookup (lit "(x | f)") = lit "filters['f)']((x)" := by decide +kernel

/-- A filter within brackets, with a bracket in a string, and a pipe at the end. -/
def trailing : Text := lit "f(x | g: 'a)') |"

def trailingTokens : List Token :=
  [.run (lit "f(x"), .pipe, .run (lit "g"), .colon, .quoted (lit "'a)'"), .run (lit ")"), .pipe]

theorem balanced_calls_trailing :
    Bracketed trailing ∧ (∀ name ∈ nameTokens (tokens trailing), name ≠ .pipe → name.Quotable) ∧
      calls standardLookup trailing = lit "filters['g'](f(x,'a)')))" ∧ ¬ Balanced (calls standardLookup trailing) := by
  have read : tokens trailing = trailingTokens := by decide +kernel
  have names : nameTokens (tokens trailing) = [.run (lit "g"), .pipe] := by
    rw [read]
    decide
  have bracketed : Bracketed trailing := by
    have pieces_ : pieces trailing = [.token (.run (lit "f(x")), .blank (lit " "), .token .pipe, .blank (lit " "),
        .token (.run (lit "g")), .token .colon, .blank (lit " "), .token (.quoted (lit "'a)'")),
        .token (.run (lit ")")), .blank (lit " "), .token .pipe] := by decide +kernel
    refine ⟨⟨by decide, fun mark => ?_⟩, fun t inside => ?_⟩
    · simp [pieces_]
    · rw [read] at inside
      simp only [trailingTokens, List.mem_cons, Token.run.injEq, reduceCtorEq, false_or, List.not_mem_nil,
        or_false] at inside
      rcases inside with rfl | rfl | rfl <;> decide
  have quotable : ∀ name ∈ nameTokens (tokens trailing), name ≠ .pipe → name.Quotable := by
    rw [names]
    rintro name inside other
    simp only [List.mem_cons, other, List.not_mem_nil, or_false] at inside
    rw [inside]
    show Balanced _
    decide
  refine ⟨bracketed, quotable, by decide +kernel, fun balanced => ?_⟩
  have even := (balanced_calls bracketed quotable).1 balanced
  rw [names] at even
  revert even
  decide

end Bindmark.Filter
