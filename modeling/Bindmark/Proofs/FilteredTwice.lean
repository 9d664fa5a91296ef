import Bindmark.Proofs.FilterCalls
import Bindmark.Proofs.References
import Mathlib.Data.List.Chain

/-!
# Filters once more

Filters leave a text in which no pipe stands alone and no blank stands between
tokens (`Tight`), and such a text stays as it is. So filters make nothing more of
an expression once they have made calls of it, as long as a name stands behind
every pipe that anything stands behind, and the table of filters is named by a
path (`IsPath`) or by any other text without pipes, colons, quotes and blanks at
its ends.
-/

namespace Bindmark.Filter

/-! ## Tight texts -/

/-- Other text without blanks at its ends. -/
structure Trimmed (t : Text) : Prop where
  plain : t.all isPlain = true
  first : ∀ c, t.head? = some c → Text.isBlank c = false
  last : ∀ c, t.getLast? = some c → Text.isBlank c = false

theorem trimmed_iff {t : Text} : Trimmed t ↔
    (t.all isPlain && t.head?.all (!Text.isBlank ·) && t.getLast?.all (!Text.isBlank ·)) = true := by
  simp only [Bool.and_eq_true, Option.all_eq_true, Bool.not_eq_true']
  exact ⟨fun ⟨plain, first, last⟩ => ⟨⟨plain, first⟩, last⟩, fun ⟨⟨plain, first⟩, last⟩ => ⟨plain, first, last⟩⟩

instance (t : Text) : Decidable (Trimmed t) := decidable_of_iff _ trimmed_iff.symm

theorem Trimmed.nil : Trimmed [] := by decide

theorem Trimmed.append {t u : Text} (first : Trimmed t) (second : Trimmed u) : Trimmed (t ++ u) where
  plain := by rw [List.all_append, first.plain, second.plain, Bool.and_true]
  first c starts := by
    rw [List.head?_append] at starts
    cases head : t.head? with
    | none =>
      rw [head] at starts
      exact second.first c starts
    | some d =>
      rw [head] at starts
      exact first.first c (head.trans starts)
  last c ends := by
    rw [List.getLast?_append] at ends
    cases tail : u.getLast? with
    | none =>
      rw [tail] at ends
      exact first.last c ends
    | some d =>
      rw [tail] at ends
      exact second.last c (tail.trans ends)

/-- Texts of tokens other than pipes, one right behind the other. -/
inductive Tight : Text → Prop
  | nil : Tight []
  | run {t rest : Text} (trimmed : Trimmed t) (others : Tight rest) : Tight (t ++ rest)
  | quoted {mark : Char} {body rest : Text} (isMark : IsMark mark) (complete : Complete mark body)
      (others : Tight rest) : Tight (mark :: body ++ rest)
  | or {rest : Text} (others : Tight rest) : Tight ('|' :: '|' :: rest)
  | colon {rest : Text} (others : Tight rest) : Tight (':' :: rest)

namespace Tight

theorem append {t u : Text} (first : Tight t) (second : Tight u) : Tight (t ++ u) := by
  induction first with
  | nil => exact second
  | run trimmed _ ih =>
    rw [List.append_assoc]
    exact .run trimmed ih
  | quoted isMark complete _ ih =>
    rw [List.append_assoc]
    exact .quoted isMark complete ih
  | or _ ih => exact .or ih
  | colon _ ih => exact .colon ih

theorem ofTrimmed {t : Text} (trimmed : Trimmed t) : Tight t := by
  rw [← List.append_nil t]
  exact .run trimmed .nil

end Tight

/-! ## Reading a tight text -/

/-- A token other than a pipe. -/
def Piece.Written (piece : Piece) : Prop := ∃ token, piece = .token token ∧ token ≠ .pipe

theorem pieces_cons {c : Char} {rest : Text} {piece : Piece} (body : Text) (first : firstPiece c (body ++ rest) = piece)
    (text : piece.text = c :: body) : pieces (c :: body ++ rest) = piece :: pieces rest := by
  rw [List.cons_append, pieces, first]
  simp [text]

/-- Other text in front of anything else is one token. -/
theorem written_run {run rest : Text} (trimmed : Trimmed run) (special : ∀ c, rest.head? = some c → isPlain c = false)
    (written : ∀ piece ∈ pieces rest, piece.Written) : ∀ piece ∈ pieces (run ++ rest), piece.Written := by
  cases run with
  | nil => exact written
  | cons c body =>
    obtain ⟨plain, first, last⟩ := trimmed
    rw [List.all_cons, Bool.and_eq_true] at plain
    have taken : (body ++ rest).takeWhile isPlain = body :=
      takeWhile_append_stop (List.all_eq_true.mp plain.2) special
    have kept : Text.stripEnd body = body := by
      refine Text.stripEnd_eq_self fun d stands => last d ?_
      rw [List.getLast?_cons, stands, Option.getD_some]
    have piece : firstPiece c (body ++ rest) = .token (.run (c :: body)) := by
      rw [firstPiece_run plain.1 (first c rfl), taken, kept]
    rw [pieces_cons _ piece rfl]
    exact List.forall_mem_cons.mpr ⟨⟨_, rfl, Token.noConfusion⟩, written⟩

/-- A tight text behind other text is read as tokens, none of which is a pipe. -/
theorem Tight.written {t : Text} (tight : Tight t) : ∀ {run : Text}, Trimmed run →
    ∀ piece ∈ pieces (run ++ t), piece.Written := by
  induction tight with
  | nil =>
    intro run trimmed
    exact written_run trimmed (by simp) (by simp [pieces])
  | run more _ ih =>
    -- Both runs are one token, so the induction is for every run in front.
    intro run trimmed
    rw [← List.append_assoc]
    exact ih (trimmed.append more)
  | @quoted mark body rest isMark complete _ ih =>
    intro run trimmed
    refine written_run trimmed ?_ ?_
    · intro c starts
      cases starts
      rcases isMark with rfl | rfl <;> decide
    · rw [pieces_cons _ (firstPiece_quoted isMark complete rest) rfl]
      exact List.forall_mem_cons.mpr ⟨⟨_, rfl, Token.noConfusion⟩, ih .nil⟩
  | @or rest _ ih =>
    intro run trimmed
    refine written_run trimmed ?_ ?_
    · intro c starts
      cases starts
      decide
    · rw [show '|' :: '|' :: rest = '|' :: ['|'] ++ rest from rfl, pieces_cons _ (firstPiece_or rest) rfl]
      exact List.forall_mem_cons.mpr ⟨⟨_, rfl, Token.noConfusion⟩, ih .nil⟩
  | @colon rest _ ih =>
    intro run trimmed
    refine written_run trimmed ?_ ?_
    · intro c starts
      cases starts
      decide
    · rw [show ':' :: rest = ':' :: [] ++ rest from rfl, pieces_cons _ (firstPiece_colon rest) rfl]
      exact List.forall_mem_cons.mpr ⟨⟨_, rfl, Token.noConfusion⟩, ih .nil⟩

/-- Filters leave a tight text as it is. -/
theorem Tight.calls {t : Text} (tight : Tight t) (lookup : Text) : calls lookup t = t := by
  have written : ∀ piece ∈ pieces t, piece.Written := tight.written .nil
  have plain : .pipe ∉ tokens t := by
    intro isPipe
    obtain ⟨piece, inside, read⟩ := List.mem_filterMap.mp isPipe
    obtain ⟨token, rfl, other⟩ := written piece inside
    exact other (Option.some.inj read)
  have all (ps : List Piece) (written : ∀ piece ∈ ps, piece.Written) :
      (ps.filterMap Piece.token?).flatMap Token.text = ps.flatMap Piece.text := by
    induction ps with
    | nil => rfl
    | cons piece ps ih =>
      obtain ⟨⟨token, rfl, -⟩, others⟩ := List.forall_mem_cons.mp written
      rw [List.filterMap_cons_some (by rfl : Piece.token? (.token token) = some token), List.flatMap_cons,
        List.flatMap_cons, ih others]
      rfl
  by_cases rewritten : Rewritten t
  · rw [calls_of_rewritten lookup rewritten, callsOfTokens_eq_flatMap lookup plain, tokens, all _ written, text_pieces]
  · exact calls_of_not_rewritten lookup rewritten

/-! ## What filters write -/

/-- Other text is trimmed, however far it goes. -/
theorem trimmed_run {c : Char} (plain : isPlain c = true) (solid : Text.isBlank c = false) (rest : Text) :
    Trimmed (c :: Text.stripEnd (rest.takeWhile isPlain)) where
  plain := by
    rw [List.all_cons, plain, Bool.true_and, List.all_eq_true]
    exact fun d inside => List.mem_takeWhile_imp ((List.rdropWhile_prefix _ _).subset inside)
  first d starts := by
    cases starts
    exact solid
  last d ends := by
    rw [List.getLast?_cons] at ends
    cases last : (Text.stripEnd (rest.takeWhile isPlain)).getLast? with
    | none =>
      rw [last] at ends
      cases ends
      exact solid
    | some d' =>
      rw [last] at ends
      cases ends
      exact Text.not_isBlank_last_stripEnd last

theorem trimmed_of_firstPiece {c : Char} {rest text : Text} (first : firstPiece c rest = .token (.run text)) :
    Trimmed text := by
  unfold firstPiece at first
  split at first
  · split at first <;> cases first
  · rename_i notMark
    rw [not_or] at notMark
    split at first
    · split at first <;> cases first
    · rename_i notPipe
      split at first
      · cases first
      · rename_i notColon
        split at first
        · cases first
        · rename_i solid
          cases first
          have plain : isPlain c = true := by simp [isPlain, notPipe, notColon, notMark.1, notMark.2]
          exact trimmed_run plain (Bool.eq_false_iff.mpr solid) rest

/-- Tokens other than pipes are tight. -/
theorem tight_of_mem_tokens {t : Text} {token : Token} (inside : token ∈ tokens t) (other : token ≠ .pipe) :
    Tight token.text := by
  cases token with
  | quoted text =>
    obtain ⟨mark, body, isMark, complete, rfl⟩ := shaped_of_mem_tokens inside
    have quoted : Tight (mark :: body ++ []) := .quoted isMark complete .nil
    rwa [List.append_nil] at quoted
  | or => exact .or .nil
  | pipe => exact absurd rfl other
  | colon => exact .colon .nil
  | run text =>
    obtain ⟨piece, stands, read⟩ := List.mem_filterMap.mp inside
    obtain ⟨c, rest, rfl⟩ := exists_firstPiece stands
    have first : firstPiece c rest = .token (.run text) := by
      cases piece : firstPiece c rest <;> simp_all [Piece.token?]
    exact .ofTrimmed (trimmed_of_firstPiece first)

/-- A token that may stand behind a pipe: other text without a backslash. -/
def Token.IsName : Token → Prop
  | .run name => '\\' ∉ name
  | _ => False

instance : DecidablePred Token.IsName
  | .run name => inferInstanceAs (Decidable ('\\' ∉ name))
  | .quoted _ => .isFalse id
  | .or => .isFalse id
  | .pipe => .isFalse id
  | .colon => .isFalse id

/-- Filters behind an expression: no pipe stands first, and what stands behind a
    pipe is a name. -/
structure Piped (t : Text) : Prop where
  based : (tokens t).head? ≠ some .pipe
  named : (tokens t).IsChain fun before token => before = .pipe → token.IsName

instance (t : Text) : Decidable (Piped t) :=
  decidable_of_iff ((tokens t).head? ≠ some .pipe ∧
    (tokens t).IsChain fun before token => before = .pipe → token.IsName)
    ⟨fun ⟨based, named⟩ => ⟨based, named⟩, fun piped => ⟨piped.based, piped.named⟩⟩

theorem tight_openCall {lookup name written : Text} (table : Trimmed lookup) (plain : name.all isPlain = true)
    (noEscape : '\\' ∉ name) (tight : Tight written) : Tight (openCall lookup name written) := by
  have noQuote : '\'' ∉ name := fun inside => absurd (List.all_eq_true.mp plain _ inside) (by decide)
  have opening : Trimmed (lookup ++ lit "[") := table.append (by decide)
  have call : openCall lookup name written =
      lookup ++ lit "[" ++ ('\'' :: (name ++ ['\'']) ++ (lit "](" ++ written)) := by
    simp [openCall, lit]
  rw [call]
  exact .run opening (.quoted (.inr rfl) (complete_closed noQuote noEscape) (.run (by decide) tight))

theorem tight_finished {p : Progress} (tight : Tight p.written) : Tight p.finished := by
  have closing : Tight (lit ")") := .ofTrimmed (by decide)
  obtain ⟨written, place⟩ := p
  cases place with
  | base => exact tight
  | name => exact tight.append closing
  | arguments afterColon =>
    refine (tight.append ?_).append closing
    cases afterColon with
    | false => exact .nil
    | true => exact .ofTrimmed (by decide)

/-- One more token leaves what is written tight. -/
theorem tight_step {lookup : Text} (table : Trimmed lookup) {p : Progress} {token : Token} (tight : Tight p.written)
    (shaped : token.Shaped) (written : token ≠ .pipe → Tight token.text) (named : p.place = .name → token.IsName) :
    Tight (p.step lookup token).written := by
  by_cases isPipe : token = .pipe
  · rw [isPipe, step_pipe]
    exact tight_finished tight
  · have more := tight.append (written isPipe)
    obtain ⟨text, place⟩ := p
    cases place with
    | base => cases token <;> first | exact more | exact absurd rfl isPipe
    | name =>
      have isName := named rfl
      cases token with
      | run name => exact tight_openCall table shaped isName tight
      | _ => exact absurd isName id
    | arguments afterColon =>
      cases token with
      | pipe => exact absurd rfl isPipe
      | colon =>
        refine (Tight.append tight ?_).append (.ofTrimmed (by decide))
        cases afterColon with
        | false => exact .nil
        | true => exact .ofTrimmed (by decide)
      | _ => exact more

/-- Tokens one after the other leave what is written tight. -/
theorem tight_foldl {lookup t : Text} (table : Trimmed lookup) : ∀ {ts : List Token} {before : Token} {p : Progress},
    (∀ token ∈ ts, token ∈ tokens t) → (before :: ts).IsChain (fun before token => before = .pipe → token.IsName) →
    (p.place = .name → before = .pipe) → Tight p.written → Tight (ts.foldl (Progress.step lookup) p).written
  | [], _, _, _, _, _, tight => tight
  | token :: ts, before, p, inside, named, place, tight => by
    rw [List.isChain_cons_cons] at named
    rw [List.foldl_cons]
    obtain ⟨own, others⟩ := List.forall_mem_cons.mp inside
    -- A name is expected right behind a pipe and nowhere else.
    refine tight_foldl table others named.2 (place_step_eq_name_iff lookup p token).mp ?_
    exact tight_step table tight (shaped_of_mem_tokens own) (tight_of_mem_tokens own) fun isName =>
      named.1 (place isName)

/-- Filters make nothing more of an expression that they have made calls of. -/
theorem calls_calls {lookup t : Text} (table : Trimmed lookup) (piped : Piped t) :
    calls lookup (calls lookup t) = calls lookup t := by
  obtain ⟨based, named⟩ := piped
  by_cases rewritten : Rewritten t
  · have written := calls_of_rewritten lookup rewritten
    have several := rewritten.2
    cases read : tokens t with
    | nil => simp [read] at several
    | cons first rest =>
      rw [read] at based named written
      have inside (token : Token) (stands : token ∈ first :: rest) : token ∈ tokens t := read ▸ stands
      have other : first ≠ .pipe := fun isPipe => based (by rw [isPipe]; rfl)
      have tight : Tight (calls lookup t) := by
        rw [written, callsOfTokens_eq_finished]
        refine tight_finished (tight_foldl table (fun token stands => inside token (List.mem_cons_of_mem _ stands))
          named nofun ?_)
        exact tight_of_mem_tokens (inside first List.mem_cons_self) other
      exact tight.calls lookup
  · have kept := calls_of_not_rewritten lookup rewritten
    rw [kept, kept]

/-! ## Tables by their path -/

/-- Names with dots between them, which lead to a table of filters. -/
def IsPath (t : Text) : Prop :=
  ∃ names : List Text, names ≠ [] ∧ (∀ name ∈ names, name ≠ [] ∧ name.all Text.isIdentifierPart = true) ∧
    t = Text.join (lit ".") names

theorem isPlain_of_isIdentifierPart {c : Char} (part : Text.isIdentifierPart c = true) : isPlain c = true := by
  have other := Text.notMem_breaks part
  simp only [isPlain, Bool.and_eq_true, bne_iff_ne]
  refine ⟨⟨⟨?_, ?_⟩, ?_⟩, ?_⟩ <;> rintro rfl <;> exact other (by decide)

theorem trimmed_of_parts {t : Text} (parts : t.all Text.isIdentifierPart = true) : Trimmed t := by
  rw [List.all_eq_true] at parts
  exact {
    plain := List.all_eq_true.mpr fun c inside => isPlain_of_isIdentifierPart (parts c inside)
    first c starts := Text.not_isBlank_of_isIdentifierPart (parts c (List.mem_of_head? starts))
    last c ends := Text.not_isBlank_of_isIdentifierPart (parts c (List.mem_of_getLast? ends)) }

theorem IsPath.trimmed {t : Text} (path : IsPath t) : Trimmed t := by
  obtain ⟨names, -, parts, rfl⟩ := path
  induction names with
  | nil => exact .nil
  | cons name names ih =>
    obtain ⟨⟨-, own⟩, others⟩ := List.forall_mem_cons.mp parts
    cases names with
    | nil => exact trimmed_of_parts own
    | cons next names => exact ((trimmed_of_parts own).append (by decide : Trimmed (lit "."))).append (ih others)

/-- Filters on a table that a path leads to make nothing more of what they have
    written, if the expression does not begin with a pipe and every token behind a
    pipe is other text without a backslash. -/
theorem calls_by_path_twice {lookup t : Text} (path : IsPath lookup) (based : (tokens t).head? ≠ some .pipe)
    (named : ∀ before token after, tokens t = before ++ .pipe :: token :: after →
      ∃ name, token = .run name ∧ '\\' ∉ name) :
    calls lookup (calls lookup t) = calls lookup t := by
  refine calls_calls path.trimmed ⟨based, ?_⟩
  rw [List.isChain_iff_forall_rel_of_append_cons_cons]
  rintro piece token before after split rfl
  obtain ⟨name, rfl, noEscape⟩ := named before token after split
  exact noEscape

/-- An expression with an operator, a pipe in a string, colons and a quote that
    closes nothing, in front of two filters. -/
def mixed : Text := lit "a || 'x|y' ? \" b : c | fit:1: | upper"

def mixedTokens : List Token :=
  [.run (lit "a"), .or, .quoted (lit "'x|y'"), .run (lit "?"), .run (lit "b"), .colon, .run (lit "c"), .pipe,
    .run (lit "fit"), .colon, .run (lit "1"), .colon, .pipe, .run (lit "upper")]

theorem calls_by_path_twice_mixed :
    IsPath (lit "ko.filters") ∧ tokens mixed = mixedTokens ∧
      calls (lit "ko.filters") mixed = lit "ko.filters['upper'](ko.filters['fit'](a||'x|y'?b:c,1,undefined))" ∧
      calls (lit "ko.filters") (calls (lit "ko.filters") mixed) = calls (lit "ko.filters") mixed := by
  have path : IsPath (lit "ko.filters") := ⟨[lit "ko", lit "filters"], by decide, by decide, by decide⟩
  have read : tokens mixed = mixedTokens := by decide +kernel
  refine ⟨path, read, by decide +kernel, calls_by_path_twice path ?_ ?_⟩
  · rw [read]
    decide
  · have chain : mixedTokens.IsChain fun before token => before = .pipe → token.IsName := by decide
    intro before token after split
    rw [read] at split
    have isName := List.isChain_iff_forall_rel_of_append_cons_cons.mp chain split rfl
    cases token with
    | run name => exact ⟨name, rfl, isName⟩
    | _ => exact absurd isName id

end Bindmark.Filter
