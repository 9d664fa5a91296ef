import Bindmark.Filter.Calls
import Bindmark.Proofs.Trimming
import Mathlib.Tactic.Common

/-!
# Filter expressions up to blanks

A filter expression falls into atoms: strings, operators and single characters,
without the blanks between them. Two texts with the same atoms differ in blanks
outside strings only. Atoms go along with joining texts, as long as no string
is cut, and filters are found among them.
-/

namespace Bindmark.Filter

/-! ## Atoms -/

/-- The characters of a text that are no blanks, each as a piece of its own. -/
def solid (t : Text) : List Piece := (t.filter fun c => !Text.isBlank c).map fun c => .token (.run [c])

/-- The atoms of a piece: other text falls into its characters, and blanks have
    none. -/
def Piece.atoms : Piece → List Piece
  | .token (.run t) => solid t
  | .blank _ => []
  | piece => [piece]

/-- The atoms of an expression, in order. -/
def atoms (t : Text) : List Piece := (pieces t).flatMap Piece.atoms

/-- An expression without its blanks outside strings. -/
def compact (t : Text) : Text := (atoms t).flatMap Piece.text

/-- Every quote in an expression belongs to a complete string. -/
def Whole (t : Text) : Prop := ∀ mark, .stray mark ∉ pieces t

/-! ## Strings -/

/-- A character that begins a string. -/
abbrev IsMark (c : Char) : Prop := c = '"' ∨ c = '\''

theorem bodyLength?_bounds {mark : Char} {t : Text} {n : Nat} (found : bodyLength? mark t = some n) :
    1 ≤ n ∧ n ≤ t.length := by
  fun_induction bodyLength? mark t generalizing n with
  | case1 => cases found
  | case2 => cases found; simp
  | case3 => cases found
  | case4 => cases found; simp
  | case5 => cases found
  | case6 d rest other _ ih =>
    obtain ⟨m, inner, rfl⟩ := Option.map_eq_some_iff.mp found
    have shorter := ih inner
    simp only [List.length_cons]
    omega
  | case7 c d rest _ _ ih =>
    obtain ⟨m, inner, rfl⟩ := Option.map_eq_some_iff.mp found
    have shorter := ih inner
    simp only [List.length_cons] at shorter ⊢
    omega

/-- What stands behind a complete string does not matter to it. -/
theorem bodyLength?_append {mark : Char} {t : Text} {n : Nat} (found : bodyLength? mark t = some n) (rest : Text) :
    bodyLength? mark (t ++ rest) = some n := by
  fun_induction bodyLength? mark t generalizing n with
  | case1 => cases found
  | case2 => cases found; cases rest <;> simp [bodyLength?]
  | case3 => cases found
  | case4 => cases found; simp [bodyLength?]
  | case5 => cases found
  | case6 d more other _ ih =>
    obtain ⟨m, inner, rfl⟩ := Option.map_eq_some_iff.mp found
    simp [bodyLength?, *]
  | case7 c d more other plain ih =>
    obtain ⟨m, inner, rfl⟩ := Option.map_eq_some_iff.mp found
    have found := ih inner
    rw [List.cons_append] at found
    simp [bodyLength?, *]

theorem bodyLength?_take {mark : Char} {t : Text} {n : Nat} (found : bodyLength? mark t = some n) :
    bodyLength? mark (t.take n) = some n := by
  fun_induction bodyLength? mark t generalizing n with
  | case1 => cases found
  | case2 => cases found; simp [bodyLength?]
  | case3 => cases found
  | case4 => cases found; simp [bodyLength?]
  | case5 => cases found
  | case6 d more other plain ih =>
    obtain ⟨m, inner, rfl⟩ := Option.map_eq_some_iff.mp found
    simp [bodyLength?, *]
  | case7 c d more other plain ih =>
    obtain ⟨m, inner, rfl⟩ := Option.map_eq_some_iff.mp found
    cases m with
    | zero => exact absurd (bodyLength?_bounds inner).1 (by omega)
    | succ m =>
      have found := ih inner
      rw [List.take_succ_cons] at found
      simp [bodyLength?, *]

/-- A string body up to and with its closing quote. -/
def Complete (mark : Char) (body : Text) : Prop := bodyLength? mark body = some body.length

instance (mark : Char) (body : Text) : Decidable (Complete mark body) := inferInstanceAs (Decidable (_ = _))

theorem complete_take {mark : Char} {t : Text} {n : Nat} (found : bodyLength? mark t = some n) :
    Complete mark (t.take n) := by
  rw [Complete, bodyLength?_take found, List.length_take, Nat.min_eq_left (bodyLength?_bounds found).2]

/-- A text without the quote and without backslashes is complete once it is closed. -/
theorem complete_closed {mark : Char} {t : Text} (noQuote : mark ∉ t) (noEscape : '\\' ∉ t) :
    Complete mark (t ++ [mark]) := by
  induction t with
  | nil => simp [Complete, bodyLength?]
  | cons c t ih =>
    obtain ⟨other, noQuote⟩ := not_or.mp (mt List.mem_cons.mpr noQuote)
    obtain ⟨plain, noEscape⟩ := not_or.mp (mt List.mem_cons.mpr noEscape)
    have rest := ih noQuote noEscape
    cases t with
    | nil => simp [Complete, bodyLength?, Ne.symm other, Ne.symm plain]
    | cons d t =>
      rw [Complete] at rest ⊢
      rw [List.cons_append] at rest
      simp [bodyLength?, Ne.symm other, Ne.symm plain, rest]

/-! ## The first piece -/

theorem not_isBlank_of_not_isPlain {c : Char} (special : isPlain c = false) : Text.isBlank c = false := by
  simp only [isPlain, Bool.and_eq_false_iff, bne_eq_false_iff_eq] at special
  rcases special with ((rfl | rfl) | rfl) | rfl <;> decide

theorem isPlain_of_isBlank {c : Char} (blank : Text.isBlank c = true) : isPlain c = true := by
  cases special : isPlain c with
  | true => rfl
  | false =>
    rw [not_isBlank_of_not_isPlain special] at blank
    cases blank

theorem atoms_nil : atoms [] = [] := by
  rw [atoms, pieces, List.flatMap_nil]

theorem atoms_cons (c : Char) (rest : Text) :
    atoms (c :: rest) = (firstPiece c rest).atoms ++ atoms (rest.drop ((firstPiece c rest).text.length - 1)) := by
  rw [atoms, pieces, List.flatMap_cons, atoms]

theorem firstPiece_quoted {mark : Char} (isMark : IsMark mark) {body : Text} (complete : Complete mark body)
    (rest : Text) : firstPiece mark (body ++ rest) = .token (.quoted (mark :: body)) := by
  rw [firstPiece, if_pos isMark, bodyLength?_append complete]
  dsimp only
  rw [List.take_left]

theorem firstPiece_stray {mark : Char} (isMark : IsMark mark) {rest : Text} (open_ : bodyLength? mark rest = none) :
    firstPiece mark rest = .stray mark := by
  rw [firstPiece, if_pos isMark, open_]

theorem firstPiece_or (rest : Text) : firstPiece '|' ('|' :: rest) = .token .or := by
  simp [firstPiece]

theorem firstPiece_pipe {rest : Text} (lone : rest.head? ≠ some '|') : firstPiece '|' rest = .token .pipe := by
  simp [firstPiece, lone]

theorem firstPiece_colon (rest : Text) : firstPiece ':' rest = .token .colon := by
  simp [firstPiece]

theorem atoms_quoted {mark : Char} (isMark : IsMark mark) {body : Text} (complete : Complete mark body)
    (rest : Text) : atoms (mark :: body ++ rest) = .token (.quoted (mark :: body)) :: atoms rest := by
  rw [List.cons_append, atoms_cons, firstPiece_quoted isMark complete]
  simp [Piece.text, Token.text, Piece.atoms]

theorem atoms_stray {mark : Char} (isMark : IsMark mark) {rest : Text} (open_ : bodyLength? mark rest = none) :
    atoms (mark :: rest) = .stray mark :: atoms rest := by
  rw [atoms_cons, firstPiece_stray isMark open_]
  simp [Piece.text, Piece.atoms]

theorem atoms_or (rest : Text) : atoms ('|' :: '|' :: rest) = .token .or :: atoms rest := by
  rw [atoms_cons, firstPiece_or]
  simp [Piece.text, Token.text, Piece.atoms, lit]

theorem atoms_pipe {rest : Text} (lone : rest.head? ≠ some '|') :
    atoms ('|' :: rest) = .token .pipe :: atoms rest := by
  rw [atoms_cons, firstPiece_pipe lone]
  simp [Piece.text, Token.text, Piece.atoms, lit]

theorem atoms_colon (rest : Text) : atoms (':' :: rest) = .token .colon :: atoms rest := by
  rw [atoms_cons, firstPiece_colon]
  simp [Piece.text, Token.text, Piece.atoms, lit]

theorem firstPiece_blank {c : Char} (blank : Text.isBlank c = true) (rest : Text) :
    firstPiece c rest = .blank (c :: rest.takeWhile Text.isBlank) := by
  have plain := isPlain_of_isBlank blank
  simp only [isPlain, Bool.and_eq_true, bne_iff_ne] at plain
  obtain ⟨⟨⟨notPipe, notColon⟩, notDouble⟩, notSingle⟩ := plain
  simp [firstPiece, *]

theorem drop_takeWhile (p : Char → Bool) (t : Text) : t.drop (t.takeWhile p).length = t.dropWhile p :=
  calc t.drop (t.takeWhile p).length
    _ = (t.takeWhile p ++ t.dropWhile p).drop (t.takeWhile p).length := by rw [List.takeWhile_append_dropWhile]
    _ = t.dropWhile p := List.drop_left

theorem takeWhile_append_stop {p : Char → Bool} {a b : Text} (inside : ∀ c ∈ a, p c = true)
    (stop : ∀ c, b.head? = some c → p c = false) : (a ++ b).takeWhile p = a := by
  have ends : b.takeWhile p = [] := by
    cases b with
    | nil => rfl
    | cons c b => rw [List.takeWhile_cons_of_neg (by rw [stop c rfl]; exact Bool.false_ne_true)]
  rw [List.takeWhile_append_of_pos inside, ends, List.append_nil]

theorem head_dropWhile_eq_false {p : Char → Bool} {t : Text} {c : Char} (starts : (t.dropWhile p).head? = some c) :
    p c = false := by
  have stop := List.head?_dropWhile_not p t
  rwa [starts] at stop

theorem atoms_dropWhile_isBlank (rest : Text) : atoms (rest.dropWhile Text.isBlank) = atoms rest := by
  cases rest with
  | nil => rfl
  | cons c rest =>
    cases blank : Text.isBlank c with
    | false => rw [List.dropWhile_cons_of_neg (by simp [blank])]
    | true =>
      rw [List.dropWhile_cons_of_pos blank, atoms_cons, firstPiece_blank blank]
      simp [Piece.text, Piece.atoms, drop_takeWhile]

/-- Blanks have no atoms. -/
theorem atoms_blank {c : Char} (blank : Text.isBlank c = true) (rest : Text) : atoms (c :: rest) = atoms rest := by
  rw [← atoms_dropWhile_isBlank (c :: rest), List.dropWhile_cons_of_pos blank, atoms_dropWhile_isBlank]

theorem solid_append (a b : Text) : solid (a ++ b) = solid a ++ solid b := by
  simp [solid]

theorem solid_of_allBlank {t : Text} (blank : t.allBlank) : solid t = [] := by
  rw [Text.allBlank, List.all_eq_true] at blank
  simpa [solid] using blank

theorem atoms_of_allBlank {t : Text} (blank : t.allBlank) (rest : Text) : atoms (t ++ rest) = atoms rest := by
  induction t with
  | nil => rfl
  | cons c t ih =>
    rw [Text.allBlank, List.all_cons, Bool.and_eq_true] at blank
    rw [List.cons_append, atoms_blank blank.1, ih blank.2]

theorem firstPiece_run {c : Char} (plain : isPlain c = true) (solid : Text.isBlank c = false) (rest : Text) :
    firstPiece c rest = .token (.run (c :: Text.stripEnd (rest.takeWhile isPlain))) := by
  simp only [isPlain, Bool.and_eq_true, bne_iff_ne] at plain
  obtain ⟨⟨⟨notPipe, notColon⟩, notDouble⟩, notSingle⟩ := plain
  simp [firstPiece, *]

/-- Other text falls into its characters, whatever comes after it. -/
theorem atoms_plain : ∀ (t rest : Text), t.all isPlain = true → atoms (t ++ rest) = solid t ++ atoms rest
  | [], _, _ => rfl
  | c :: t, rest, plain => by
    rw [List.all_cons, Bool.and_eq_true] at plain
    obtain ⟨plain_c, plain_t⟩ := plain
    cases blank : Text.isBlank c with
    | true =>
      rw [List.cons_append, atoms_blank blank, atoms_plain t rest plain_t]
      simp [solid, blank]
    | false =>
      -- A run may go on into `rest`. It gives up the blanks at its end, which are then
      -- pieces of their own, so only the atoms show where `t` ends.
      have first : (t ++ rest).takeWhile isPlain = t ++ rest.takeWhile isPlain :=
        List.takeWhile_append_of_pos (List.all_eq_true.mp plain_t)
      obtain ⟨blanks, allBlank, trimmed⟩ := Text.exists_stripEnd (t ++ rest.takeWhile isPlain)
      have solids :
          solid (Text.stripEnd (t ++ rest.takeWhile isPlain)) = solid t ++ solid (rest.takeWhile isPlain) := by
        rw [← solid_append, trimmed, solid_append, solid_of_allBlank allBlank, List.append_nil, ← trimmed]
      have behind : (t ++ rest).drop (Text.stripEnd (t ++ rest.takeWhile isPlain)).length =
          blanks ++ rest.dropWhile isPlain := by
        have whole : t ++ rest = Text.stripEnd (t ++ rest.takeWhile isPlain) ++ (blanks ++ rest.dropWhile isPlain) := by
          rw [← List.append_assoc, ← trimmed, List.append_assoc, List.takeWhile_append_dropWhile]
        conv_lhs => rw [whole]
        exact List.drop_left
      have others := atoms_plain (rest.takeWhile isPlain) (rest.dropWhile isPlain) List.all_takeWhile
      rw [List.takeWhile_append_dropWhile] at others
      rw [List.cons_append, atoms_cons, firstPiece_run plain_c blank, first]
      simp only [Piece.text, Token.text, List.length_cons, Nat.add_sub_cancel, behind, atoms_of_allBlank allBlank]
      have headed : solid (c :: Text.stripEnd (t ++ rest.takeWhile isPlain)) =
          solid (c :: t) ++ solid (rest.takeWhile isPlain) := by
        rw [← List.singleton_append, solid_append, solids, ← List.append_assoc, ← solid_append,
          List.singleton_append]
      rw [others, Piece.atoms, headed, List.append_assoc]
termination_by t rest => (t ++ rest).length

theorem solid_singleton {c : Char} (solid' : Text.isBlank c = false) : solid [c] = [.token (.run [c])] := by
  simp [solid, solid']

/-! ## Joined texts -/

theorem stray_mem_atoms {t : Text} {mark : Char} : .stray mark ∈ atoms t ↔ .stray mark ∈ pieces t := by
  rw [atoms, List.mem_flatMap]
  constructor
  · rintro ⟨piece, inside, stands⟩
    rcases piece with (_ | _ | _ | _ | _) | _ | _ <;> simp_all [Piece.atoms, solid]
  · exact fun inside => ⟨.stray mark, inside, by simp [Piece.atoms]⟩

theorem whole_iff {t : Text} : Whole t ↔ ∀ mark, .stray mark ∉ atoms t := by
  simp only [Whole, stray_mem_atoms]

theorem Whole.tail {t rest : Text} (whole : Whole t) (front : List Piece)
    (split : atoms t = front ++ atoms rest) : Whole rest := by
  rw [whole_iff] at whole ⊢
  intro mark inside
  exact whole mark (split ▸ List.mem_append_right _ inside)

/-- Texts of which the first is not cut within a string or an operator have
    their atoms one after the other. -/
theorem atoms_append : ∀ (a : Text) {b : Text}, Whole a → b.head? ≠ some '|' →
    atoms (a ++ b) = atoms a ++ atoms b
  | [], b, _, _ => by rw [atoms_nil]; rfl
  | c :: a, b, whole, apart => by
    by_cases isMark : IsMark c
    · cases found : bodyLength? c a with
      | none =>
        have stray : .stray c ∈ atoms (c :: a) := by
          rw [atoms_stray isMark found]
          exact List.mem_cons_self ..
        exact absurd stray (whole_iff.mp whole c)
      | some n =>
        have complete := complete_take found
        have here := atoms_quoted isMark complete (a.drop n)
        rw [List.cons_append, List.take_append_drop] at here
        have both := atoms_quoted isMark complete (a.drop n ++ b)
        rw [List.cons_append, ← List.append_assoc, List.take_append_drop] at both
        have shorter : (a.drop n).length < (c :: a).length := by
          rw [List.length_drop, List.length_cons]
          omega
        rw [List.cons_append, both, here, atoms_append (a.drop n) (whole.tail [_] here) apart, List.cons_append]
    · by_cases isPipe : c = '|'
      · subst isPipe
        -- A pipe at the end of `a` stays one because `b` does not begin with another.
        by_cases double : a.head? = some '|'
        · obtain ⟨a', rfl⟩ := List.head?_eq_some_iff.mp double
          have here := atoms_or a'
          have shorter : a'.length < ('|' :: '|' :: a').length := by
            simp only [List.length_cons]
            omega
          rw [List.cons_append, List.cons_append, atoms_or, here, atoms_append a' (whole.tail [_] here) apart,
            List.cons_append]
        · have lone : (a ++ b).head? ≠ some '|' := by
            cases a with
            | nil => exact apart
            | cons d a => exact double
          have here := atoms_pipe double
          rw [List.cons_append, atoms_pipe lone, here, atoms_append a (whole.tail [_] here) apart, List.cons_append]
      · by_cases isColon : c = ':'
        · subst isColon
          have here := atoms_colon a
          rw [List.cons_append, atoms_colon, here, atoms_append a (whole.tail [_] here) apart, List.cons_append]
        · have plain : [c].all isPlain = true := by
            rw [not_or] at isMark
            simp [isPlain, isPipe, isColon, isMark.1, isMark.2]
          have here := atoms_plain [c] a plain
          rw [List.singleton_append] at here
          have both := atoms_plain [c] (a ++ b) plain
          rw [List.singleton_append] at both
          rw [List.cons_append, both, here, atoms_append a (whole.tail _ here) apart, List.append_assoc]
termination_by a => a.length

/-! ## Tokens -/

theorem text_firstPiece (c : Char) (rest : Text) :
    ∃ body, (firstPiece c rest).text = c :: body ∧ body <+: rest := by
  unfold firstPiece
  split
  · split
    · exact ⟨_, rfl, List.take_prefix _ _⟩
    · exact ⟨[], rfl, List.nil_prefix⟩
  · split
    · rename_i isPipe
      subst isPipe
      split
      · rename_i double
        obtain ⟨more, rfl⟩ := List.head?_eq_some_iff.mp double
        exact ⟨['|'], rfl, List.prefix_append ['|'] more⟩
      · exact ⟨[], rfl, List.nil_prefix⟩
    · split
      · rename_i isColon
        subst isColon
        exact ⟨[], rfl, List.nil_prefix⟩
      · split
        · exact ⟨_, rfl, List.takeWhile_prefix _⟩
        · exact ⟨_, rfl, (List.rdropWhile_prefix _ _).trans (List.takeWhile_prefix _)⟩

/-- The pieces of an expression are its text. -/
theorem text_pieces (t : Text) : (pieces t).flatMap Piece.text = t := by
  fun_induction pieces t with
  | case1 => rfl
  | case2 c rest piece ih =>
    obtain ⟨body, text, more, rfl⟩ := text_firstPiece c rest
    have behind : (body ++ more).drop (piece.text.length - 1) = more := by simp [piece, text]
    rw [behind] at ih ⊢
    rw [List.flatMap_cons, ih]
    simp [piece, text]

theorem exists_firstPiece {t : Text} {piece : Piece} (inside : piece ∈ pieces t) :
    ∃ c rest, piece = firstPiece c rest := by
  fun_induction pieces t with
  | case1 => cases inside
  | case2 c rest _ ih =>
    rcases List.mem_cons.mp inside with rfl | later
    · exact ⟨c, rest, rfl⟩
    · exact ih later

/-- The atoms of an expression are those of its tokens. -/
theorem atoms_eq_tokens {t : Text} (whole : Whole t) :
    atoms t = (tokens t).flatMap fun token => (Piece.token token).atoms := by
  have each : ∀ ps : List Piece, (∀ mark, .stray mark ∉ ps) →
      ps.flatMap Piece.atoms = (ps.filterMap Piece.token?).flatMap fun token => (Piece.token token).atoms := by
    intro ps complete
    induction ps with
    | nil => rfl
    | cons piece ps ih =>
      have others := ih fun mark inside => complete mark (List.mem_cons_of_mem _ inside)
      cases piece with
      | token token => simp [Piece.token?, others]
      | blank blank => exact others
      | stray mark => exact absurd (List.mem_cons_self ..) (complete mark)
  exact each (pieces t) whole

theorem pipe_mem_atoms {t : Text} : .token .pipe ∈ atoms t ↔ .pipe ∈ tokens t := by
  rw [atoms, tokens, List.mem_flatMap, List.mem_filterMap]
  constructor
  · rintro ⟨piece, inside, stands⟩
    refine ⟨piece, inside, ?_⟩
    rcases piece with (_ | _ | _ | _ | _) | _ | _ <;> simp_all [Piece.atoms, solid, Piece.token?]
  · rintro ⟨piece, inside, isPipe⟩
    refine ⟨piece, inside, ?_⟩
    cases piece <;> simp_all [Piece.token?, Piece.atoms]

/-- What the texts of tokens look like. -/
def Token.Shaped : Token → Prop
  | .quoted t => ∃ mark body, IsMark mark ∧ Complete mark body ∧ t = mark :: body
  | .run t => t.all isPlain = true
  | _ => True

theorem shaped_of_mem_tokens {t : Text} {token : Token} (inside : token ∈ tokens t) : token.Shaped := by
  obtain ⟨piece, stands, isToken⟩ := List.mem_filterMap.mp inside
  obtain ⟨c, rest, rfl⟩ := exists_firstPiece stands
  unfold firstPiece at isToken
  split at isToken
  · rename_i isMark
    split at isToken
    · rename_i n found
      cases isToken
      exact ⟨c, rest.take n, isMark, complete_take found, rfl⟩
    · cases isToken
  · rename_i notMark
    split at isToken
    · split at isToken <;> cases isToken <;> trivial
    · rename_i notPipe
      split at isToken
      · cases isToken
        trivial
      · rename_i notColon
        split at isToken
        · cases isToken
        · cases isToken
          rw [not_or] at notMark
          have first : isPlain c = true := by simp [isPlain, notPipe, notColon, notMark.1, notMark.2]
          have later : ((rest.takeWhile isPlain).rdropWhile Text.isBlank).all isPlain = true := by
            rw [List.all_eq_true]
            exact fun d stands => List.mem_takeWhile_imp ((List.rdropWhile_prefix _ _).subset stands)
          exact (List.all_cons ..).trans (by rw [first]; exact later)

/-- Tokens other than pipes keep their atoms in front of any text. -/
theorem atoms_token {token : Token} (shaped : token.Shaped) (other : token ≠ .pipe) (rest : Text) :
    atoms (token.text ++ rest) = (Piece.token token).atoms ++ atoms rest := by
  cases token with
  | quoted t =>
    obtain ⟨mark, body, isMark, complete, rfl⟩ := shaped
    exact atoms_quoted isMark complete rest
  | or => exact atoms_or rest
  | pipe => exact absurd rfl other
  | colon => exact atoms_colon rest
  | run t => exact atoms_plain t rest shaped

/-! ## Filters as calls -/

/-- Texts that are put together from their tokens again: those with a pipe, of any kind
    and wherever it stands, and with several tokens. -/
def Rewritten (t : Text) : Prop := '|' ∈ t ∧ 2 ≤ (tokens t).length

theorem calls_of_not_rewritten (lookup : Text) {t : Text} (kept : ¬ Rewritten t) : calls lookup t = t := by
  unfold calls
  split
  · rename_i some_
    split
    · rfl
    · rfl
    · rename_i several single
      refine absurd ⟨List.contains_iff_mem.mp some_, ?_⟩ kept
      cases read : tokens t with
      | nil => contradiction
      | cons first rest =>
        cases rest with
        | nil => exact absurd read (single first)
        | cons => simp
  · rfl

theorem calls_of_rewritten (lookup : Text) {t : Text} (rewritten : Rewritten t) :
    calls lookup t = callsOfTokens lookup (tokens t) := by
  obtain ⟨some_, several⟩ := rewritten
  unfold calls
  rw [if_pos (List.contains_iff_mem.mpr some_)]
  split
  · rename_i empty
    simp [empty] at several
  · rename_i single
    simp [single] at several
  · rfl

theorem contains_of_pipe {t : Text} (isPipe : .pipe ∈ tokens t) : t.contains '|' = true := by
  obtain ⟨piece, inside, isToken⟩ := List.mem_filterMap.mp isPipe
  have text : '|' ∈ (pieces t).flatMap Piece.text := by
    refine List.mem_flatMap.mpr ⟨piece, inside, ?_⟩
    cases piece <;> simp_all [Piece.token?, Piece.text, Token.text, lit]
  rw [text_pieces] at text
  exact List.contains_iff_mem.mpr text

/-- An expression with a pipe among several tokens becomes what is written of its tokens. -/
theorem calls_eq_callsOfTokens (lookup : Text) {t : Text} (isPipe : .pipe ∈ tokens t)
    (several : 2 ≤ (tokens t).length) : calls lookup t = callsOfTokens lookup (tokens t) :=
  calls_of_rewritten lookup ⟨List.contains_iff_mem.mp (contains_of_pipe isPipe), several⟩

theorem text_ne_nil_of_mem_tokens {t : Text} {token : Token} (inside : token ∈ tokens t) : token.text ≠ [] := by
  obtain ⟨piece, stands, isToken⟩ := List.mem_filterMap.mp inside
  obtain ⟨c, rest, rfl⟩ := exists_firstPiece stands
  obtain ⟨body, text, -⟩ := text_firstPiece c rest
  cases first : firstPiece c rest with
  | token own =>
    rw [first] at isToken text
    cases isToken
    have same : token.text = c :: body := text
    simp [same]
  | _ => simp [first, Piece.token?] at isToken

theorem written_step_ne_nil {lookup : Text} {p : Progress} (some_ : p.written ≠ []) (token : Token) :
    (p.step lookup token).written ≠ [] := by
  unfold Progress.step
  split <;> simp [openCall, some_]

/-- Filters leave something of every expression. -/
theorem calls_ne_nil (lookup : Text) {t : Text} (some_ : t ≠ []) : calls lookup t ≠ [] := by
  have written (ts : List Token) {p : Progress} (held : p.written ≠ []) :
      (ts.foldl (Progress.step lookup) p).written ≠ [] := by
    induction ts generalizing p with
    | nil => exact held
    | cons token ts ih => exact ih (written_step_ne_nil held token)
  by_cases rewritten : Rewritten t
  · rw [calls_of_rewritten lookup rewritten]
    cases ts : tokens t with
    | nil =>
      have several := rewritten.2
      simp [ts] at several
    | cons first rest => exact written _ (text_ne_nil_of_mem_tokens (t := t) (by simp [ts]))
  · rwa [calls_of_not_rewritten lookup rewritten]

/-- Before the first pipe, tokens are written one after the other. -/
theorem foldl_step_base (lookup : Text) : ∀ (ts : List Token) (written : Text), .pipe ∉ ts →
    ts.foldl (Progress.step lookup) ⟨written, .base⟩ = ⟨written ++ ts.flatMap Token.text, .base⟩
  | [], written, _ => by simp
  | token :: ts, written, plain => by
    obtain ⟨other, others⟩ := not_or.mp (mt List.mem_cons.mpr plain)
    have step : Progress.step lookup ⟨written, .base⟩ token = ⟨written ++ token.text, .base⟩ := by
      cases token <;> first | rfl | exact absurd rfl other
    rw [List.foldl_cons, step, foldl_step_base lookup ts _ others, List.flatMap_cons, List.append_assoc]

theorem callsOfTokens_eq_flatMap (lookup : Text) {ts : List Token} (plain : .pipe ∉ ts) :
    callsOfTokens lookup ts = ts.flatMap Token.text := by
  cases ts with
  | nil => rfl
  | cons first rest =>
    have others : .pipe ∉ rest := fun inside => plain (List.mem_cons_of_mem _ inside)
    rw [callsOfTokens, List.foldl_append, foldl_step_base lookup rest _ others]
    simp [Progress.step]

/-- Without a pipe an expression stays as it is, but for blanks. -/
theorem atoms_calls (lookup : Text) {t : Text} (whole : Whole t) (plain : .pipe ∉ tokens t) :
    atoms (calls lookup t) = atoms t := by
  have written : atoms ((tokens t).flatMap Token.text) = atoms t := by
    have each : ∀ ts : List Token, (∀ token ∈ ts, token.Shaped ∧ token ≠ .pipe) →
        atoms (ts.flatMap Token.text) = ts.flatMap fun token => (Piece.token token).atoms := by
      intro ts shaped
      induction ts with
      | nil => exact atoms_nil
      | cons token ts ih =>
        obtain ⟨isShaped, other⟩ := shaped token (List.mem_cons_self ..)
        rw [List.flatMap_cons, List.flatMap_cons, atoms_token isShaped other,
          ih fun b inside => shaped b (List.mem_cons_of_mem _ inside)]
    rw [atoms_eq_tokens whole]
    refine each _ fun token inside => ⟨shaped_of_mem_tokens inside, ?_⟩
    rintro rfl
    exact plain inside
  by_cases rewritten : Rewritten t
  · rw [calls_of_rewritten lookup rewritten, callsOfTokens_eq_flatMap lookup plain, written]
  · rw [calls_of_not_rewritten lookup rewritten]

/-- What has been written begins with a look into the table of filters. -/
def Progress.Called (lookup : Text) (p : Progress) : Prop := lookup ++ lit "['" <+: p.written

theorem Progress.Called.append {lookup : Text} {p : Progress} (called : p.Called lookup) (t : Text) (place : Place) :
    Progress.Called lookup ⟨p.written ++ t, place⟩ :=
  called.trans (List.prefix_append _ _)

theorem called_openCall (lookup name written : Text) (place : Place) :
    Progress.Called lookup ⟨openCall lookup name written, place⟩ := by
  simp [Progress.Called, openCall]

theorem Progress.Called.step {lookup : Text} {p : Progress} (called : p.Called lookup) (token : Token) :
    (p.step lookup token).Called lookup := by
  obtain ⟨written, place⟩ := p
  unfold Progress.step
  split
  · exact called
  · exact called.append _ _
  · exact called.append _ _
  · exact called_openCall _ _ _ _
  · rw [List.append_assoc]
    exact called.append _ _
  · rw [List.append_assoc]
    exact called.append _ _
  · exact called.append _ _

theorem Progress.Called.foldl {lookup : Text} {p : Progress} (called : p.Called lookup) (ts : List Token) :
    (ts.foldl (Progress.step lookup) p).Called lookup := by
  induction ts generalizing p with
  | nil => exact called
  | cons token ts ih => exact ih (called.step token)

/-- After a pipe, the first token that is none names a filter. -/
theorem called_of_named (lookup : Text) : ∀ {ts : List Token} (written : Text), (∃ token ∈ ts, token ≠ .pipe) →
    (ts.foldl (Progress.step lookup) ⟨written, .name⟩).Called lookup
  | [], _, named => by
    obtain ⟨token, inside, _⟩ := named
    cases inside
  | token :: ts, written, named => by
    rw [List.foldl_cons]
    by_cases isPipe : token = .pipe
    · subst isPipe
      obtain ⟨name, inside, other⟩ := named
      rcases List.mem_cons.mp inside with rfl | later
      · exact absurd rfl other
      · exact called_of_named lookup _ ⟨name, later, other⟩
    · have opened : Progress.step lookup ⟨written, .name⟩ token =
          ⟨openCall lookup token.text written, .arguments (token = .colon)⟩ := by
        cases token <;> first | rfl | exact absurd rfl isPipe
      rw [opened]
      exact (called_openCall _ _ _ _).foldl ts

theorem place_step_eq_name_iff (lookup : Text) (p : Progress) (token : Token) :
    (p.step lookup token).place = .name ↔ token = .pipe := by
  obtain ⟨written, place⟩ := p
  cases place <;> cases token <;> simp [Progress.step]

theorem place_step_pipe (lookup : Text) (p : Progress) : (p.step lookup .pipe).place = .name :=
  (place_step_eq_name_iff lookup p .pipe).mpr rfl

/-- Once a filter has a name, the calls begin with the table of filters. -/
theorem calls_of_pipe (lookup : Text) {t : Text} {before after : List Token}
    (split : tokens t = before ++ .pipe :: after) (based : before ≠ []) (named : ∃ token ∈ after, token ≠ .pipe) :
    lookup ++ lit "['" <+: calls lookup t := by
  have isPipe : .pipe ∈ tokens t := by
    rw [split]
    exact List.mem_append_right _ (List.mem_cons_self ..)
  obtain ⟨first, before, rfl⟩ := List.exists_cons_of_ne_nil based
  have several : 2 ≤ (tokens t).length := by
    rw [split, List.length_append, List.length_cons, List.length_cons]
    omega
  rw [calls_eq_callsOfTokens lookup isPipe several, split, List.cons_append, callsOfTokens, List.append_assoc,
    List.foldl_append, List.cons_append, List.foldl_cons]
  generalize before.foldl (Progress.step lookup) ⟨first.text, .base⟩ = p
  have place := place_step_pipe lookup p
  obtain ⟨token, inside, other⟩ := named
  have named : ∃ token ∈ after ++ [Token.pipe], token ≠ .pipe := ⟨token, List.mem_append_left _ inside, other⟩
  have called := called_of_named lookup (p.step lookup .pipe).written named
  rw [← place] at called
  exact called

end Bindmark.Filter
