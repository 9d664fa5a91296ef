import Bindmark.Proofs.FilteredTwice

/-!
# Partitions into tokens

A filter expression is cut into tokens, blanks and quotes that open no complete
string. What each piece has to be (`Piece.Fits`) is told by what stands behind it,
and there is only one way to cut a text so. Nothing but blanks is lost between the
tokens, unless a quote opens no string.
-/

namespace Bindmark.Filter

/-! ## Complete strings -/

/-- What comes after the opening quote of a complete string, up to and with the
    closing one. A backslash escapes any character but a line feed. -/
inductive StringRest (mark : Char) : Text → Prop
  | close : StringRest mark [mark]
  | plain {c : Char} {rest : Text} (other : c ≠ mark) (noEscape : c ≠ '\\') (later : StringRest mark rest) :
      StringRest mark (c :: rest)
  | escaped {c : Char} {rest : Text} (sameLine : c ≠ '\n') (later : StringRest mark rest) :
      StringRest mark ('\\' :: c :: rest)

theorem StringRest.complete {mark : Char} {body : Text} (isMark : IsMark mark) (string : StringRest mark body) :
    Complete mark body := by
  have notEscape : '\\' ≠ mark := by rcases isMark with rfl | rfl <;> decide
  induction string with
  | close => simp [Complete, bodyLength?]
  | @plain c rest other noEscape _ ih =>
    obtain ⟨d, rest, rfl⟩ := List.exists_cons_of_ne_nil (List.length_pos_iff.mp (bodyLength?_bounds ih).1)
    rw [Complete] at ih ⊢
    simp [bodyLength?, other, noEscape, ih]
  | escaped sameLine _ ih =>
    rw [Complete] at ih ⊢
    simp [bodyLength?, notEscape, sameLine, ih]

theorem stringRest_of_bodyLength? {mark : Char} {t : Text} {n : Nat} (found : bodyLength? mark t = some n) :
    StringRest mark (t.take n) := by
  fun_induction bodyLength? mark t generalizing n with
  | case1 => cases found
  | case2 =>
    cases found
    exact .close
  | case3 => cases found
  | case4 =>
    cases found
    exact .close
  | case5 => cases found
  | case6 d rest sameLine _ ih =>
    obtain ⟨m, inner, rfl⟩ := Option.map_eq_some_iff.mp found
    exact .escaped sameLine (ih inner)
  | case7 c d rest other noEscape ih =>
    obtain ⟨m, inner, rfl⟩ := Option.map_eq_some_iff.mp found
    exact .plain other noEscape (ih inner)

theorem bodyLength?_eq_none_iff {mark : Char} {t : Text} (isMark : IsMark mark) :
    bodyLength? mark t = none ↔ ¬ ∃ body rest, StringRest mark body ∧ t = body ++ rest := by
  constructor
  · rintro none ⟨body, rest, string, rfl⟩
    have found := bodyLength?_append (string.complete isMark) rest
    rw [none] at found
    cases found
  · intro unclosed
    cases found : bodyLength? mark t with
    | none => rfl
    | some n => exact absurd ⟨t.take n, t.drop n, stringRest_of_bodyLength? found, by simp⟩ unclosed

/-! ## Pieces that fit -/

/-- The text that pieces make up. -/
def textOf (ps : List Piece) : Text := ps.flatMap Piece.text

@[simp] theorem textOf_nil : textOf [] = [] := rfl

@[simp] theorem textOf_cons (piece : Piece) (ps : List Piece) : textOf (piece :: ps) = piece.text ++ textOf ps := rfl

@[simp] theorem textOf_append (ps qs : List Piece) : textOf (ps ++ qs) = textOf ps ++ textOf qs :=
  List.flatMap_append

theorem textOf_pieces (t : Text) : textOf (pieces t) = t := text_pieces t

/-- What a piece has to be, in front of the pieces behind it. -/
inductive Piece.Fits (behind : List Piece) : Piece → Prop
  /-- A complete string in double or single quotes. -/
  | quoted {mark : Char} {body : Text} (isMark : IsMark mark) (string : StringRest mark body) :
      Fits behind (.token (.quoted (mark :: body)))
  | or : Fits behind (.token .or)
  /-- A pipe without another one behind it. -/
  | pipe (lone : (textOf behind).head? ≠ some '|') : Fits behind (.token .pipe)
  | colon : Fits behind (.token .colon)
  /-- Other text without blanks at its ends, as long as it can be: behind it, blanks
      apart, comes a pipe, a colon, a quote or the end. -/
  | run {t : Text} (some_ : t ≠ []) (trimmed : Trimmed t)
      (longest : ∀ c, (Text.stripStart (textOf behind)).head? = some c → isPlain c = false) :
      Fits behind (.token (.run t))
  /-- All blanks that stand together. -/
  | blank {t : Text} (some_ : t ≠ []) (blanks : Text.allBlank t = true)
      (longest : ∀ c, (textOf behind).head? = some c → Text.isBlank c = false) : Fits behind (.blank t)
  /-- A quote at which no complete string begins. -/
  | stray {mark : Char} (isMark : IsMark mark)
      (unclosed : ¬ ∃ body rest, StringRest mark body ∧ textOf behind = body ++ rest) : Fits behind (.stray mark)

/-- Pieces that make up a text, each of which fits where it stands. -/
structure Partition (t : Text) (ps : List Piece) : Prop where
  whole : textOf ps = t
  fits : ∀ before piece after, ps = before ++ piece :: after → piece.Fits after

theorem partition_nil : Partition [] [] := ⟨rfl, by simp⟩

theorem Partition.cons {t : Text} {piece : Piece} {ps : List Piece} (fits : piece.Fits ps) (others : Partition t ps) :
    Partition (piece.text ++ t) (piece :: ps) := by
  refine ⟨by rw [textOf_cons, others.whole], fun before other after split => ?_⟩
  cases before with
  | nil =>
    obtain ⟨rfl, rfl⟩ := List.cons.inj split
    exact fits
  | cons first before =>
    obtain ⟨rfl, rfl⟩ := List.cons.inj split
    exact others.fits before other after rfl

theorem Partition.head {t : Text} {piece : Piece} {ps : List Piece} (partition : Partition t (piece :: ps)) :
    piece.Fits ps := partition.fits [] piece ps rfl

theorem Partition.tail {t : Text} {piece : Piece} {ps : List Piece} (partition : Partition t (piece :: ps)) :
    Partition (textOf ps) ps :=
  ⟨rfl, fun before other after split => partition.fits (piece :: before) other after (by rw [split]; rfl)⟩

theorem Partition.mem_fits {t : Text} {ps : List Piece} (partition : Partition t ps) {piece : Piece}
    (inside : piece ∈ ps) : ∃ after, piece.Fits after := by
  obtain ⟨before, after, split⟩ := List.append_of_mem inside
  exact ⟨after, partition.fits before piece after split⟩

/-! ## The pieces of a text -/

/-- Behind a run, blanks apart, there is no more text of its kind. -/
theorem head_stripStart_behind {rest body more : Text} (text : body = Text.stripEnd (rest.takeWhile isPlain))
    (split : rest = body ++ more) {c : Char} (starts : (Text.stripStart more).head? = some c) : isPlain c = false := by
  obtain ⟨blanks, blank, trimmed⟩ := Text.exists_stripEnd (rest.takeWhile isPlain)
  have same : body ++ more = body ++ (blanks ++ rest.dropWhile isPlain) := by
    rw [← split, ← List.append_assoc, text, ← trimmed, List.takeWhile_append_dropWhile]
  rw [List.append_cancel_left same, Text.stripStart_append_of_allBlank blank,
    Text.stripStart_eq_self fun d first => not_isBlank_of_not_isPlain (head_dropWhile_eq_false first)] at starts
  exact head_dropWhile_eq_false starts

theorem fits_firstPiece {c : Char} {rest body more : Text} (text : (firstPiece c rest).text = c :: body)
    (split : rest = body ++ more) : (firstPiece c rest).Fits (pieces more) := by
  by_cases isMark : IsMark c
  · cases found : bodyLength? c rest with
    | none =>
      rw [firstPiece_stray isMark found] at text ⊢
      obtain rfl : body = [] := (List.cons.inj text).2.symm
      refine .stray isMark ?_
      rwa [textOf_pieces, ← bodyLength?_eq_none_iff isMark, ← List.nil_append more, ← split]
    | some n =>
      have first := firstPiece_quoted isMark (complete_take found) (rest.drop n)
      rw [List.take_append_drop] at first
      rw [first]
      exact .quoted isMark (stringRest_of_bodyLength? found)
  · by_cases isPipe : c = '|'
    · subst isPipe
      by_cases double : rest.head? = some '|'
      · obtain ⟨after, rfl⟩ := List.head?_eq_some_iff.mp double
        rw [firstPiece_or]
        exact .or
      · rw [firstPiece_pipe double] at text ⊢
        obtain rfl : body = [] := (List.cons.inj text).2.symm
        refine .pipe ?_
        rwa [textOf_pieces, ← List.nil_append more, ← split]
    · by_cases isColon : c = ':'
      · subst isColon
        rw [firstPiece_colon]
        exact .colon
      · cases blank : Text.isBlank c with
        | true =>
          rw [firstPiece_blank blank] at text ⊢
          obtain rfl : rest.takeWhile Text.isBlank = body := (List.cons.inj text).2
          refine .blank (List.cons_ne_nil _ _) ?_ fun d starts => ?_
          · rw [Text.allBlank, List.all_cons, blank, Bool.true_and]
            exact List.all_takeWhile
          · have same : rest.takeWhile Text.isBlank ++ more = rest.takeWhile Text.isBlank ++ Text.stripStart rest := by
              rw [← split, Text.stripStart, List.takeWhile_append_dropWhile]
            rw [textOf_pieces, List.append_cancel_left same] at starts
            exact head_dropWhile_eq_false starts
        | false =>
          rw [not_or] at isMark
          have plain : isPlain c = true := by simp [isPlain, isPipe, isColon, isMark.1, isMark.2]
          rw [firstPiece_run plain blank] at text ⊢
          obtain rfl : Text.stripEnd (rest.takeWhile isPlain) = body := (List.cons.inj text).2
          refine .run (List.cons_ne_nil _ _) (trimmed_run plain blank rest) fun d starts => ?_
          rw [textOf_pieces] at starts
          exact head_stripStart_behind rfl split starts

theorem partition_pieces (t : Text) : Partition t (pieces t) := by
  fun_induction pieces t with
  | case1 => exact partition_nil
  | case2 c rest piece ih =>
    obtain ⟨body, text, more, rfl⟩ := text_firstPiece c rest
    have behind : (body ++ more).drop (piece.text.length - 1) = more := by simp [piece, text]
    rw [behind] at ih ⊢
    have whole : c :: (body ++ more) = piece.text ++ more := by rw [text, List.cons_append]
    rw [whole]
    exact .cons (fits_firstPiece text rfl) ih

/-- A piece that fits is the first one of its text. -/
theorem pieces_of_fits {piece : Piece} {ps : List Piece} (fits : piece.Fits ps) :
    pieces (piece.text ++ textOf ps) = piece :: pieces (textOf ps) := by
  cases fits with
  | quoted isMark string => exact pieces_cons _ (firstPiece_quoted isMark (string.complete isMark) _) rfl
  | or => exact pieces_cons ['|'] (firstPiece_or _) rfl
  | pipe lone => exact pieces_cons [] (firstPiece_pipe lone) rfl
  | colon => exact pieces_cons [] (firstPiece_colon _) rfl
  | stray isMark unclosed =>
    exact pieces_cons [] (firstPiece_stray isMark ((bodyLength?_eq_none_iff isMark).mpr unclosed)) rfl
  | @blank t some_ blanks longest =>
    obtain ⟨c, rest, rfl⟩ := List.exists_cons_of_ne_nil some_
    rw [Text.allBlank, List.all_cons, Bool.and_eq_true] at blanks
    refine pieces_cons rest ?_ rfl
    rw [firstPiece_blank blanks.1, takeWhile_append_stop (List.all_eq_true.mp blanks.2) longest]
  | @run t some_ trimmed longest =>
    obtain ⟨c, rest, rfl⟩ := List.exists_cons_of_ne_nil some_
    obtain ⟨plain, first, last⟩ := trimmed
    rw [List.all_cons, Bool.and_eq_true] at plain
    -- The run takes in the blanks behind it, and gives them up again.
    have blanks : Text.allBlank ((textOf ps).takeWhile Text.isBlank) = true := List.all_takeWhile
    have wide : (rest ++ textOf ps).takeWhile isPlain = rest ++ (textOf ps).takeWhile Text.isBlank := by
      conv_lhs => rw [← List.takeWhile_append_dropWhile (p := Text.isBlank) (l := textOf ps), ← List.append_assoc]
      refine takeWhile_append_stop (fun d inside => ?_) longest
      rcases List.mem_append.mp inside with inside | inside
      · exact List.all_eq_true.mp plain.2 d inside
      · exact isPlain_of_isBlank (List.all_eq_true.mp blanks d inside)
    have kept : Text.stripEnd rest = rest := by
      refine Text.stripEnd_eq_self fun d stands => last d ?_
      rw [List.getLast?_cons, stands, Option.getD_some]
    refine pieces_cons rest ?_ rfl
    rw [firstPiece_run plain.1 (first c rfl), wide, Text.stripEnd_append_of_allBlank blanks, kept]

theorem Partition.eq_pieces {t : Text} {ps : List Piece} (partition : Partition t ps) : ps = pieces t := by
  induction ps generalizing t with
  | nil =>
    rw [← partition.whole, textOf_nil, pieces]
  | cons piece ps ih =>
    rw [← partition.whole, textOf_cons, pieces_of_fits partition.head, ← ih partition.tail]

/-! ## Tokens and what lies between them -/

theorem Piece.Fits.text_ne_nil {piece : Piece} {behind : List Piece} (fits : piece.Fits behind) : piece.text ≠ [] := by
  cases fits with
  | run some_ => exact some_
  | blank some_ => exact some_
  | _ => simp [Piece.text, Token.text, lit]

/-- The token that a text is, as its first characters tell. -/
def Token.ofText (t : Text) : Token :=
  if t = lit "||" then .or
  else if t = lit "|" then .pipe
  else if t = lit ":" then .colon
  else if t.head? = some '"' ∨ t.head? = some '\'' then .quoted t
  else .run t

/-- A token is of one kind only, which can be read off its text. -/
theorem Piece.Fits.ofText {token : Token} {behind : List Piece} (fits : (Piece.token token).Fits behind) :
    Token.ofText token.text = token := by
  cases fits with
  | quoted isMark => rcases isMark with rfl | rfl <;> simp [Token.ofText, Token.text, lit]
  | @run t some_ trimmed =>
    obtain ⟨c, rest, rfl⟩ := List.exists_cons_of_ne_nil some_
    have plain := trimmed.plain
    rw [List.all_cons, Bool.and_eq_true] at plain
    simp only [isPlain, Bool.and_eq_true, bne_iff_ne] at plain
    obtain ⟨⟨⟨⟨notPipe, notColon⟩, notDouble⟩, notSingle⟩, -⟩ := plain
    simp [Token.ofText, Token.text, lit, notPipe, notColon, notDouble, notSingle]
  | _ => rfl

/-- A text made of tokens, with only blanks around each of them. -/
inductive Spaced : List Token → Text → Prop
  | nil {t : Text} (blank : Text.allBlank t = true) : Spaced [] t
  | cons {token : Token} {ts : List Token} {gap rest : Text} (blank : Text.allBlank gap = true)
      (others : Spaced ts rest) : Spaced (token :: ts) (gap ++ token.text ++ rest)

theorem Spaced.blank {ts : List Token} {gap t : Text} (spaced : Spaced ts t) (blank : Text.allBlank gap = true) :
    Spaced ts (gap ++ t) := by
  have both {more : Text} (blank' : Text.allBlank more = true) : Text.allBlank (gap ++ more) = true := by
    rw [Text.allBlank] at blank blank' ⊢
    rw [List.all_append, blank, blank', Bool.true_and]
  cases spaced with
  | nil blank' => exact .nil (both blank')
  | cons blank' others =>
    rw [← List.append_assoc, ← List.append_assoc]
    exact .cons (both blank') others

/-- If every quote belongs to a string, only blanks are lost. -/
theorem Partition.spaced {t : Text} {ps : List Piece} (partition : Partition t ps)
    (terminated : ∀ mark, .stray mark ∉ ps) : Spaced (ps.filterMap Piece.token?) t := by
  induction ps generalizing t with
  | nil =>
    rw [← partition.whole]
    exact .nil rfl
  | cons piece ps ih =>
    have others := ih partition.tail fun mark inside => terminated mark (List.mem_cons_of_mem _ inside)
    rw [← partition.whole, textOf_cons]
    cases piece with
    | token token => exact .cons (show Text.allBlank [] = true from rfl) others
    | blank blank =>
      cases partition.head with
      | blank _ blanks => exact others.blank blanks
    | stray mark => exact absurd (List.mem_cons_self ..) (terminated mark)

/-- Behind a run, another one comes only after a quote that belongs to no string. -/
theorem Partition.stray_between {t : Text} {ps : List Piece} (partition : Partition t ps)
    {before between after : List Piece} {a b : Text}
    (split : ps = before ++ .token (.run a) :: (between ++ .token (.run b) :: after))
    (none_ : ∀ token, .token token ∉ between) : ∃ mark, .stray mark ∈ between := by
  by_contra whole
  have blanks : Text.allBlank (textOf between) = true := by
    rw [Text.allBlank, List.all_eq_true]
    intro c inside
    obtain ⟨piece, stands, own⟩ := List.mem_flatMap.mp inside
    have listed : piece ∈ ps := by
      rw [split]
      simp [stands]
    obtain ⟨_, fits⟩ := partition.mem_fits listed
    cases fits with
    | blank _ blanks => exact List.all_eq_true.mp blanks c own
    | stray => exact absurd ⟨_, stands⟩ whole
    | _ => exact absurd stands (none_ _)
  cases partition.fits _ _ _ split with
  | run _ _ longest =>
    have again : .token (.run b) ∈ ps := by
      rw [split]
      simp
    obtain ⟨_, fits⟩ := partition.mem_fits again
    cases fits with
    | run some_ trimmed =>
      obtain ⟨c, rest, rfl⟩ := List.exists_cons_of_ne_nil some_
      have solid := trimmed.first c rfl
      have plain := trimmed.plain
      rw [List.all_cons, Bool.and_eq_true] at plain
      have next : (Text.stripStart (textOf (between ++ .token (.run (c :: rest)) :: after))).head? = some c := by
        rw [textOf_append, Text.stripStart_append_of_allBlank blanks, textOf_cons]
        change (Text.stripStart (c :: (rest ++ textOf after))).head? = some c
        rw [Text.stripStart, List.dropWhile_cons_of_neg (by rw [solid]; exact Bool.false_ne_true)]
        rfl
      have special := longest c next
      rw [plain.1] at special
      cases special

/-- Two pieces stand apart: one ends before the other begins. -/
theorem apart_of_split {before after before' after' : List Piece} {piece piece' : Piece}
    (same : before ++ piece :: after = before' ++ piece' :: after') (differ : piece ≠ piece') :
    (textOf (before ++ [piece])).length ≤ (textOf before').length ∨
      (textOf (before' ++ [piece'])).length ≤ (textOf before).length := by
  rcases List.append_eq_append_iff.mp same with ⟨more, rfl, split⟩ | ⟨more, rfl, split⟩
  · cases more with
    | nil => exact absurd (List.cons.inj split).1 differ
    | cons first more =>
      obtain ⟨rfl, -⟩ := List.cons.inj split
      left
      simp
  · cases more with
    | nil => exact absurd (List.cons.inj split).1.symm differ
    | cons first more =>
      obtain ⟨rfl, -⟩ := List.cons.inj split
      right
      simp

/-- An expression is cut into pieces that fit in one way only, and its tokens are
    those among these pieces, each of one kind. Two runs follow each other only with a
    quote between them that opens no string. Without such a quote, only blanks are
    lost between the tokens. No pipe and no colon of its own stands within a string. -/
theorem tokens_of_partition (t : Text) :
    ∃ ps, Partition t ps ∧ (∀ ps', Partition t ps' → ps' = ps) ∧ tokens t = ps.filterMap Piece.token? ∧
      (∀ token ∈ tokens t, Token.ofText token.text = token) ∧
      (∀ before a between b after, ps = before ++ .token (.run a) :: (between ++ .token (.run b) :: after) →
        (∀ token, .token token ∉ between) → ∃ mark, .stray mark ∈ between) ∧
      ((∀ mark, .stray mark ∉ ps) → Spaced (tokens t) t) ∧
      ∀ before string after before' mark after', ps = before ++ .token (.quoted string) :: after →
        ps = before' ++ .token mark :: after' → mark = .pipe ∨ mark = .colon →
          (textOf before').length < (textOf before).length ∨
            (textOf before).length + string.length ≤ (textOf before').length := by
  have partition := partition_pieces t
  refine ⟨pieces t, partition, fun _ other => other.eq_pieces, rfl, fun token inside => ?_,
    fun _ _ _ _ _ split none_ => partition.stray_between split none_, partition.spaced, ?_⟩
  · obtain ⟨piece, stands, own⟩ := List.mem_filterMap.mp inside
    obtain ⟨_, fits⟩ := partition.mem_fits stands
    cases piece with
    | token other =>
      obtain rfl : other = token := Option.some.inj own
      exact fits.ofText
    | _ => cases own
  · intro before string after before' mark after' split split' structural
    have single : mark.text.length = 1 := by rcases structural with rfl | rfl <;> rfl
    have differ : Piece.token (.quoted string) ≠ .token mark := by rcases structural with rfl | rfl <;> simp
    rcases apart_of_split (split.symm.trans split') differ with ahead | behind
    · right
      simpa [Piece.text, Token.text] using ahead
    · left
      simp only [textOf_append, textOf_cons, textOf_nil, Piece.text, List.append_nil, List.length_append,
        single] at behind
      omega

/-- An expression with three pipes in a row, a pipe and a colon in a string, and an
    escaped quote. -/
def crowded : Text := lit " a b||| 'x:\\'|' :c"

def crowdedPieces : List Piece :=
  [.blank (lit " "), .token (.run (lit "a b")), .token .or, .token .pipe, .blank (lit " "),
    .token (.quoted (lit "'x:\\'|'")), .blank (lit " "), .token .colon, .token (.run (lit "c"))]

theorem tokens_of_partition_crowded :
    Partition crowded crowdedPieces ∧ (∀ ps, Partition crowded ps → ps = crowdedPieces) ∧
      Spaced [.run (lit "a b"), .or, .pipe, .quoted (lit "'x:\\'|'"), .colon, .run (lit "c")] crowded := by
  obtain ⟨ps, partition, unique, read, -, -, spaced, -⟩ := tokens_of_partition crowded
  have cut : pieces crowded = crowdedPieces := by decide +kernel
  obtain rfl : crowdedPieces = ps := cut.symm.trans (unique _ (partition_pieces crowded))
  refine ⟨partition, unique, ?_⟩
  rw [read] at spaced
  exact spaced (by simp [crowdedPieces])

end Bindmark.Filter
