import Bindmark.Proofs.FilterBalance
import Bindmark.Proofs.TokenPartition

/-!
# Quoted parts under filters

A directive string is split by a reader who knows quotes of three kinds, and its
values are then cut into the tokens of filters, which know strings of two kinds. As
long as every pipe outside quotes is half of an operator, filters should lose nothing
but blanks outside quotes (`LosesBlanks`). They do exactly when both readings agree as
far as tokens go (`ReadAlike`), or when the text is not rewritten at all. Where no
backquote opens quotes, both agree unless a line feed in quotes is escaped.
-/

namespace Bindmark

namespace Reading

/-- Whether a reader stands within quotes. -/
def isQuoted : Reading → Bool
  | .code _ => false
  | .quoted _ _ _ => true

/-- Whether a reader stands within quotes, right behind a backslash that escapes. -/
def isEscaped : Reading → Bool
  | .code _ => false
  | .quoted _ _ escaped => escaped

/-- Wherever `c` stands in a text, a reader who begins at `r` is as `good` says. -/
def Wherever (c : Char) (good : Reading → Prop) (r : Reading) (t : Text) : Prop :=
  ∀ a b, t = a ++ c :: b → good (r.read a)

section Wherever

variable {c : Char} {good : Reading → Prop} {r : Reading} {a t : Text}

theorem wherever_nil : Wherever c good r [] := fun a b split => by simp at split

theorem wherever_cons {d : Char} : Wherever c good r (d :: t) ↔ (d = c → good r) ∧ Wherever c good (r.step d) t := by
  constructor
  · intro all
    exact ⟨fun here => all [] t (by rw [here]; rfl), fun a b split => all (d :: a) b (by rw [split]; rfl)⟩
  · rintro ⟨here, later⟩ a b split
    cases a with
    | nil =>
      obtain ⟨rfl, -⟩ := List.cons.inj split
      exact here rfl
    | cons e a =>
      obtain ⟨rfl, rfl⟩ := List.cons.inj split
      exact later a b rfl

theorem wherever_append : Wherever c good r (a ++ t) ↔ Wherever c good r a ∧ Wherever c good (r.read a) t := by
  induction a generalizing r with
  | nil => simp [wherever_nil]
  | cons d a ih => rw [List.cons_append, wherever_cons, ih, wherever_cons, and_assoc, read_cons]

theorem wherever_of_notMem (none_ : c ∉ t) : Wherever c good r t := by
  rintro a b rfl
  exact absurd (by simp) none_

instance decidableWherever [DecidablePred good] : ∀ (r : Reading) (t : Text), Decidable (Wherever c good r t)
  | _, [] => isTrue wherever_nil
  | r, d :: t =>
    have := decidableWherever (r.step d) t
    decidable_of_iff _ wherever_cons.symm

end Wherever

/-- Backquotes stand within quotes of another kind only. -/
abbrev Straight : Reading → Text → Prop := Wherever '\x60' (·.isQuoted = true)

/-- No line feed within quotes is escaped. -/
abbrev Unfolded : Reading → Text → Prop := Wherever '\n' (·.isEscaped = false)

end Reading

namespace Filter

open Reading

/-! ## Losing blanks -/

/-- A text with some of its blanks left out, all of them outside quotes for a reader
    who begins at `r`. -/
inductive LosesBlanks : Reading → Text → Text → Prop
  | nil {r : Reading} : LosesBlanks r [] []
  | keep {r : Reading} {c : Char} {t u : Text} (later : LosesBlanks (r.step c) t u) : LosesBlanks r (c :: t) (c :: u)
  | lose {depth : Nat} {c : Char} {t u : Text} (blank : Text.isBlank c = true) (later : LosesBlanks (code depth) t u) :
      LosesBlanks (code depth) (c :: t) u

theorem step_blank {c : Char} (blank : Text.isBlank c = true) (depth : Nat) : (code depth).step c = code depth := by
  have still : Still [c] := still_of_allBlank (by rw [Text.allBlank, List.all_cons, blank, List.all_nil, Bool.true_and])
  exact still depth

namespace LosesBlanks

variable {r : Reading} {t u : Text}

theorem refl : ∀ (t : Text) (r : Reading), LosesBlanks r t t
  | [], _ => .nil
  | _ :: t, _ => .keep (refl t _)

/-- Other characters are all kept. -/
theorem count_eq (lost : LosesBlanks r t u) {c : Char} (solid : Text.isBlank c = false) : t.count c = u.count c := by
  induction lost with
  | nil => rfl
  | @keep _ d _ _ _ ih => rw [List.count_cons, List.count_cons, ih]
  | @lose _ d _ _ blank _ ih =>
    have other : d ≠ c := by
      rintro rfl
      rw [blank] at solid
      cases solid
    rw [List.count_cons_of_ne other, ih]

/-- A blank that is kept may as well be lost. -/
theorem drop {depth : Nat} {c : Char} (blank : Text.isBlank c = true) :
    ∀ {t : Text}, LosesBlanks (code depth) t (c :: u) → LosesBlanks (code depth) t u
  | _, .keep later => by
    rw [step_blank blank] at later
    exact .lose blank later
  | _, .lose blank' later => .lose blank' (drop blank later)

theorem cancel {c : Char} (lost : LosesBlanks r (c :: t) (c :: u)) : LosesBlanks (r.step c) t u := by
  cases lost with
  | keep later => exact later
  | lose blank later =>
    rw [step_blank blank]
    exact later.drop blank

end LosesBlanks

theorem losesBlanks_append_iff {r : Reading} {a t u : Text} :
    LosesBlanks r (a ++ t) (a ++ u) ↔ LosesBlanks (r.read a) t u := by
  induction a generalizing r with
  | nil => exact Iff.rfl
  | cons c a ih => exact ⟨fun lost => ih.mp lost.cancel, fun lost => .keep (ih.mpr lost)⟩

/-- In front of anything but a blank, blanks can be lost outside quotes only. -/
theorem losesBlanks_blank_iff {r : Reading} {blank t u : Text} (some_ : blank ≠ [])
    (isBlank : Text.allBlank blank = true) (solid : ∀ c, u.head? = some c → Text.isBlank c = false) :
    LosesBlanks r (blank ++ t) u ↔ r.isQuoted = false ∧ LosesBlanks (r.read blank) t u := by
  have lost (depth : Nat) : ∀ {b : Text}, Text.allBlank b = true →
      (LosesBlanks (code depth) (b ++ t) u ↔ LosesBlanks (code depth) t u) := by
    intro b
    induction b with
    | nil => exact fun _ => Iff.rfl
    | cons c b ih =>
      intro isBlank
      rw [Text.allBlank, List.all_cons, Bool.and_eq_true] at isBlank
      refine ⟨fun lost => ?_, fun later => .lose isBlank.1 ((ih isBlank.2).mpr later)⟩
      cases lost with
      | keep =>
        rw [solid c rfl] at isBlank
        cases isBlank.1
      | lose _ later => exact (ih isBlank.2).mp later
  cases r with
  | code depth => rw [lost depth isBlank, still_of_allBlank isBlank depth, isQuoted, eq_self, true_and]
  | quoted depth mark escaped =>
    refine iff_of_false (fun lost => ?_) fun both => Bool.noConfusion both.1
    obtain ⟨c, rest, rfl⟩ := List.exists_cons_of_ne_nil some_
    rw [Text.allBlank, List.all_cons, Bool.and_eq_true] at isBlank
    cases lost with
    | keep =>
      rw [solid c rfl] at isBlank
      cases isBlank.1

/-! ## Tokens without the blanks between them -/

/-- The tokens among pieces, one right behind the other. -/
def written (ps : List Piece) : Text := (ps.filterMap Piece.token?).flatMap Token.text

theorem written_cons_token (token : Token) (ps : List Piece) :
    written (.token token :: ps) = token.text ++ written ps := rfl

theorem written_cons_blank (blank : Text) (ps : List Piece) : written (.blank blank :: ps) = written ps := rfl

/-- All blanks among pieces stand outside quotes. -/
def BlanksOutside (r : Reading) (ps : List Piece) : Prop :=
  ∀ before blank after, ps = before ++ .blank blank :: after → (r.read (textOf before)).isQuoted = false

theorem blanksOutside_cons {r : Reading} {piece : Piece} {ps : List Piece} :
    BlanksOutside r (piece :: ps) ↔
      (∀ blank, piece = .blank blank → r.isQuoted = false) ∧ BlanksOutside (r.read piece.text) ps := by
  constructor
  · intro all
    refine ⟨fun blank isBlank => all [] blank ps (by rw [isBlank]; rfl), fun before blank after split => ?_⟩
    rw [← read_append]
    exact all (piece :: before) blank after (by rw [split]; rfl)
  · rintro ⟨first, others⟩ before blank after split
    cases before with
    | nil =>
      obtain ⟨rfl, -⟩ := List.cons.inj split
      exact first blank rfl
    | cons _ before =>
      obtain ⟨rfl, rfl⟩ := List.cons.inj split
      rw [textOf_cons, read_append]
      exact others before blank after rfl

/-- Behind blanks, what is written begins as the text does. -/
theorem head_written {t : Text} {ps : List Piece} (partition : Partition t ps) (whole : ∀ mark, .stray mark ∉ ps)
    (solid : ∀ c, (textOf ps).head? = some c → Text.isBlank c = false) :
    ∀ c, (written ps).head? = some c → Text.isBlank c = false := by
  cases ps with
  | nil => exact solid
  | cons piece ps =>
    have fits := partition.head
    obtain ⟨d, rest, text⟩ := List.exists_cons_of_ne_nil fits.text_ne_nil
    intro c starts
    cases piece with
    | token token =>
      have text : token.text = d :: rest := text
      rw [written_cons_token, text] at starts
      refine solid c ?_
      rw [textOf_cons, Piece.text, text]
      exact starts
    | blank blank =>
      have text : blank = d :: rest := text
      have isBlank : Text.isBlank d = true := by
        cases fits with
        | blank _ blanks => exact List.all_eq_true.mp blanks d (by rw [text]; exact List.mem_cons_self ..)
      rw [solid d (by rw [textOf_cons, Piece.text, text]; rfl)] at isBlank
      cases isBlank
    | stray mark => exact absurd (List.mem_cons_self ..) (whole mark)

/-- Without stray quotes, only blanks outside quotes are lost exactly when all blanks
    between tokens stand outside quotes. -/
theorem losesBlanks_written_iff {t : Text} {ps : List Piece} (partition : Partition t ps)
    (whole : ∀ mark, .stray mark ∉ ps) (r : Reading) :
    LosesBlanks r (textOf ps) (written ps) ↔ BlanksOutside r ps := by
  induction ps generalizing t r with
  | nil => exact iff_of_true .nil fun before blank after split => by simp at split
  | cons piece ps ih =>
    have others := fun mark inside => whole mark (List.mem_cons_of_mem _ inside)
    rw [blanksOutside_cons, textOf_cons]
    cases piece with
    | token token =>
      rw [written_cons_token, Piece.text, losesBlanks_append_iff, ih partition.tail others]
      simp
    | blank blank =>
      cases partition.head with
      | blank some_ blanks longest =>
        rw [written_cons_blank, Piece.text,
          losesBlanks_blank_iff some_ blanks (head_written partition.tail others longest), ih partition.tail others]
        simp
    | stray mark => exact absurd (List.mem_cons_self ..) (whole mark)

/-! ## What a call adds -/

/-- Every pipe behind the first token makes for one more closing bracket, and no
    bracket is lost. -/
theorem count_finished_step (lookup : Text) (p : Progress) (token : Token) :
    p.finished.count ')' + token.text.count ')' + [token].count .pipe ≤ (p.step lookup token).finished.count ')' := by
  have omitted_ (afterColon : Bool) : (omitted afterColon).count ')' = 0 := by cases afterColon <;> decide
  obtain ⟨text, place⟩ := p
  cases place <;> cases token <;>
    simp [Progress.step, Progress.finished, openCall, Token.text, omitted_, lit] <;> omega

theorem count_finished_foldl (lookup : Text) (ts : List Token) (p : Progress) :
    p.finished.count ')' + (ts.flatMap Token.text).count ')' + ts.count .pipe ≤
      (ts.foldl (Progress.step lookup) p).finished.count ')' := by
  induction ts generalizing p with
  | nil => simp
  | cons token ts ih =>
    have here := count_finished_step lookup p token
    have later := ih (p.step lookup token)
    have pipes : (token :: ts).count .pipe = [token].count .pipe + ts.count .pipe := by
      rw [← List.singleton_append, List.count_append]
    rw [List.flatMap_cons, List.count_append, List.foldl_cons, pipes]
    omega

/-- Apart from blanks and stray quotes, every character stands in a token. -/
theorem count_textOf {t : Text} {ps : List Piece} (partition : Partition t ps) {c : Char}
    (solid : Text.isBlank c = false) : (textOf ps).count c = (written ps).count c + ps.count (.stray c) := by
  induction ps generalizing t with
  | nil => rfl
  | cons piece ps ih =>
    have later := ih partition.tail
    rw [textOf_cons, List.count_append, later]
    cases piece with
    | token token =>
      rw [written_cons_token, List.count_append, List.count_cons_of_ne (by simp), Piece.text, Nat.add_assoc]
    | blank blank =>
      have none_ : blank.count c = 0 := by
        cases partition.head with
        | blank _ blanks =>
          refine List.count_eq_zero.mpr fun inside => ?_
          rw [List.all_eq_true.mp blanks c inside] at solid
          cases solid
      rw [written_cons_blank, List.count_cons_of_ne (by simp), Piece.text, none_, Nat.zero_add]
    | stray mark =>
      have same : [mark].count c = [Piece.stray mark].count (.stray c) := by
        by_cases equal : mark = c <;> simp [equal]
      have none_ : written (.stray mark :: ps) = written ps := rfl
      have first :
          (Piece.stray mark :: ps).count (.stray c) = [Piece.stray mark].count (.stray c) + ps.count (.stray c) := by
        rw [← List.singleton_append, List.count_append]
      rw [none_, Piece.text, same, first]
      omega

/-! ## Pipes of their own -/

/-- Whether every pipe outside quotes is half of an operator, for a reader who begins
    at `r`. -/
def pipesPaired : Reading → Text → Bool
  | _, [] => true
  | r, [c] => c != '|' || r.isQuoted
  | r, c :: d :: rest =>
    if c = '|' ∧ r.isQuoted = false then d == '|' && pipesPaired r rest else pipesPaired (r.step c) (d :: rest)

/-- Outside quotes, a pipe has the other half of its operator behind it. -/
theorem head_of_pipesPaired {depth : Nat} {t : Text} (paired : pipesPaired (code depth) ('|' :: t) = true) :
    ∃ rest, t = '|' :: rest ∧ pipesPaired (code depth) rest = true := by
  cases t with
  | nil => simp [pipesPaired, isQuoted] at paired
  | cons d rest =>
    rw [pipesPaired, if_pos ⟨rfl, rfl⟩, Bool.and_eq_true, beq_iff_eq] at paired
    obtain ⟨rfl, paired⟩ := paired
    exact ⟨rest, rfl, paired⟩

/-- Behind a text with no pipe outside quotes, pipes are still paired. -/
theorem pipesPaired_behind {r : Reading} {a t : Text} (paired : pipesPaired r (a ++ t) = true)
    (hidden : Wherever '|' (·.isQuoted = true) r a) : pipesPaired (r.read a) t = true := by
  induction a generalizing r with
  | nil => exact paired
  | cons c a ih =>
    obtain ⟨here, later⟩ := wherever_cons.mp hidden
    have own : ¬ (c = '|' ∧ r.isQuoted = false) := by
      rintro ⟨isPipe, outside⟩
      have within := here isPipe
      rw [outside] at within
      cases within
    refine ih ?_ later
    rw [List.cons_append] at paired
    cases more : a ++ t with
    | nil => rfl
    | cons d rest => rwa [more, pipesPaired, if_neg own] at paired

theorem pipesPaired_behind_blank {r : Reading} {blank t : Text} (blanks : Text.allBlank blank = true)
    (paired : pipesPaired r (blank ++ t) = true) : pipesPaired (r.read blank) t = true := by
  refine pipesPaired_behind paired (wherever_of_notMem fun inside => ?_)
  exact absurd (List.all_eq_true.mp blanks '|' inside) (by decide)

/-- With paired pipes and without stray quotes, the first token is no pipe. -/
theorem head_tokens_ne_pipe {t : Text} {ps : List Piece} (partition : Partition t ps) (whole : ∀ mark, .stray mark ∉ ps)
    {depth : Nat} (paired : pipesPaired (code depth) (textOf ps) = true) :
    (ps.filterMap Piece.token?).head? ≠ some .pipe := by
  induction ps generalizing t with
  | nil => simp
  | cons piece ps ih =>
    cases piece with
    | token token =>
      intro first
      obtain rfl : token = .pipe := Option.some.inj first
      cases partition.head with
      | pipe lone =>
        obtain ⟨rest, double, -⟩ := head_of_pipesPaired paired
        exact lone (by rw [show textOf ps = '|' :: rest from double]; rfl)
    | blank blank =>
      cases partition.head with
      | blank _ blanks =>
        refine ih partition.tail (fun mark inside => whole mark (List.mem_cons_of_mem _ inside)) ?_
        have later := pipesPaired_behind_blank blanks paired
        rwa [still_of_allBlank blanks depth] at later
    | stray mark => exact absurd (List.mem_cons_self ..) (whole mark)

/-! ## Texts that are rewritten -/

/-- A text whose quotes mean the same to filters as to a reader: each belongs to a
    complete string, none of the tokens is a pipe, and the blanks between tokens stand
    outside quotes. -/
structure ReadAlike (t : Text) : Prop where
  whole : Whole t
  plain : .pipe ∉ tokens t
  outside : BlanksOutside top (pieces t)

/-- If only blanks are lost, no pipe makes a call, and no quote is passed over. -/
theorem readAlike_of_losesBlanks {lookup t : Text} (paired : pipesPaired top t = true) (rewritten : Rewritten t)
    (lost : LosesBlanks top t (calls lookup t)) : ReadAlike t := by
  have partition := partition_pieces t
  have text := textOf_pieces t
  have isWritten : written (pieces t) = (tokens t).flatMap Token.text := rfl
  rw [calls_of_rewritten lookup rewritten] at lost
  cases read : tokens t with
  | nil =>
    have several := rewritten.2
    simp [read] at several
  | cons first rest =>
    rw [read] at lost isWritten
    -- A pipe behind the first token would leave a closing bracket that stands nowhere in the text.
    have noPipe : .pipe ∉ rest := by
      have brackets := lost.count_eq (c := ')') (by decide)
      have all := count_textOf partition (c := ')') (by decide)
      have none_ : (pieces t).count (.stray ')') = 0 := by
        refine List.count_eq_zero.mpr fun inside => ?_
        obtain ⟨_, fits⟩ := partition.mem_fits inside
        cases fits with
        | stray isMark => exact absurd isMark (by decide)
      have more := count_finished_foldl lookup rest ⟨first.text, .base⟩
      rw [text, isWritten, List.flatMap_cons, List.count_append, none_] at all
      rw [callsOfTokens_eq_finished] at brackets
      simp only [Progress.finished] at more brackets
      exact List.count_eq_zero.mp (by omega)
    have joined : callsOfTokens lookup (first :: rest) = written (pieces t) := by
      rw [callsOfTokens_eq_finished, foldl_step_base lookup rest _ noPipe, isWritten]
      rfl
    rw [joined] at lost
    have whole : Whole t := by
      intro mark inside
      obtain ⟨_, fits⟩ := partition.mem_fits inside
      cases fits with
      | stray isMark =>
        have solid : Text.isBlank mark = false := by rcases isMark with rfl | rfl <;> decide
        have same := lost.count_eq solid
        have all := count_textOf partition solid
        have some_ := List.count_pos_iff.mpr inside
        rw [text] at all
        omega
    refine ⟨whole, ?_, ?_⟩
    · rw [← text] at paired
      have notFirst := head_tokens_ne_pipe partition whole paired
      rw [show (pieces t).filterMap Piece.token? = tokens t from rfl, read] at notFirst
      rw [read, List.mem_cons, not_or]
      exact ⟨fun isFirst => notFirst (by rw [isFirst]; rfl), noPipe⟩
    · refine (losesBlanks_written_iff partition whole top).mp ?_
      rwa [text]

theorem losesBlanks_of_readAlike (lookup : Text) {t : Text} (rewritten : Rewritten t) (alike : ReadAlike t) :
    LosesBlanks top t (calls lookup t) := by
  have lost := (losesBlanks_written_iff (partition_pieces t) alike.whole top).mpr alike.outside
  rw [textOf_pieces] at lost
  rw [calls_of_rewritten lookup rewritten, callsOfTokens_eq_flatMap lookup alike.plain]
  exact lost

theorem losesBlanks_calls_iff (lookup : Text) {t : Text} (paired : pipesPaired top t = true) :
    LosesBlanks top t (calls lookup t) ↔ (Rewritten t → ReadAlike t) := by
  constructor
  · exact fun lost rewritten => readAlike_of_losesBlanks paired rewritten lost
  · intro alike
    by_cases rewritten : Rewritten t
    · exact losesBlanks_of_readAlike lookup rewritten (alike rewritten)
    · rw [calls_of_not_rewritten lookup rewritten]
      exact .refl t top

/-! ## Reading piece by piece -/

/-- Before each character of a complete string, a reader is within its quotes, and no
    line feed is escaped. -/
theorem StringRest.inside {mark : Char} {body : Text} (isMark : IsMark mark) (string : StringRest mark body)
    (depth : Nat) {a b : Text} {c : Char} (split : body = a ++ c :: b) :
    ∃ escaped, (quoted depth mark false).read a = quoted depth mark escaped ∧ (escaped = true → c ≠ '\n') := by
  have notEscape : '\\' ≠ mark := by rcases isMark with rfl | rfl <;> decide
  induction string generalizing a with
  | close =>
    cases a with
    | nil => exact ⟨false, rfl, nofun⟩
    | cons d a => simp at split
  | @plain d rest other noEscape _ ih =>
    cases a with
    | nil => exact ⟨false, rfl, nofun⟩
    | cons e a =>
      obtain ⟨rfl, later⟩ := List.cons.inj split
      rw [read_cons, step, if_neg noEscape, if_neg other]
      exact ih later
  | @escaped d rest sameLine _ ih =>
    rcases a with _ | ⟨e, _ | ⟨f, a⟩⟩
    · exact ⟨false, rfl, nofun⟩
    · obtain ⟨isEscape, later⟩ := List.cons.inj split
      obtain ⟨rfl, -⟩ := List.cons.inj later
      rw [← isEscape]
      exact ⟨true, rfl, fun _ => sameLine⟩
    · obtain ⟨isEscape, later⟩ := List.cons.inj split
      obtain ⟨rfl, behind⟩ := List.cons.inj later
      rw [← isEscape]
      exact ih (a := a) behind

/-- Between the pieces of a text that is read from `depth` on, a reader is always
    outside quotes: each piece is a complete string or holds no quotes at all. -/
inductive Aligned : Nat → List Piece → Prop
  | nil {depth : Nat} : Aligned depth []
  | string {depth : Nat} {mark : Char} {body : Text} {ps : List Piece} (isMark : IsMark mark)
      (string : StringRest mark body) (later : Aligned depth ps) : Aligned depth (.token (.quoted (mark :: body)) :: ps)
  | other {depth depth' : Nat} {piece : Piece} {ps : List Piece} (fits : piece.Fits ps)
      (noQuotes : ∀ c ∈ piece.text, c ∉ quotes) (reads : (code depth).read piece.text = code depth')
      (later : Aligned depth' ps) : Aligned depth (piece :: ps)

/-- A token in front of a straight text has no quotes but those of a complete string. -/
theorem Piece.Fits.legible {token : Token} {ps : List Piece} (fits : (Piece.token token).Fits ps) {depth : Nat}
    (straight : Straight (code depth) (token.text ++ textOf ps)) : token.Legible := by
  cases fits with
  | quoted isMark string => exact ⟨⟨_, _, isMark, string.complete isMark, rfl⟩, by simp⟩
  | @run t _ trimmed =>
    refine ⟨trimmed.plain, fun _ same inside => ?_⟩
    cases same
    -- Before the first backquote there are no quotes, so that it opens some.
    obtain ⟨a, b, rfl, first⟩ := List.eq_append_cons_of_mem inside
    have noQuotes : ∀ c ∈ a, c ∉ quotes := by
      intro c stands
      have plain := List.all_eq_true.mp trimmed.plain c (List.mem_append_left _ stands)
      exact notMem_quotes_of_isPlain plain fun same => first (same ▸ stands)
    obtain ⟨depth', reads⟩ := staysCode_of_noQuotes noQuotes depth
    have within := straight a (b ++ textOf ps) (by simp [Token.text])
    rw [reads] at within
    cases within
  | _ => exact ⟨trivial, by simp⟩

theorem aligned_cons {depth : Nat} {piece : Piece} {ps : List Piece} (fits : piece.Fits ps)
    (whole : ∀ mark, piece ≠ .stray mark) (straight : Straight (code depth) (piece.text ++ textOf ps))
    (later : ∀ depth', (code depth).read piece.text = code depth' → Aligned depth' ps) :
    Aligned depth (piece :: ps) := by
  cases piece with
  | token token =>
    have legible := fits.legible straight
    obtain ⟨depth', reads⟩ := legible.staysCode depth
    cases token with
    | quoted t =>
      cases fits with
      | quoted isMark string =>
        exact .string isMark string (later depth (still_quoted isMark (string.complete isMark) depth))
    | _ => exact .other fits (legible.noQuotes (by simp)) reads (later depth' reads)
  | blank blank =>
    cases fits with
    | blank some_ blanks longest =>
      have reads := still_of_allBlank blanks depth
      refine .other (.blank some_ blanks longest) (fun c inside isQuote => ?_) reads (later depth reads)
      have marks : (quotes.all fun c => !Text.isBlank c) = true := by decide
      have solid := List.all_eq_true.mp marks c isQuote
      rw [List.all_eq_true.mp blanks c inside] at solid
      cases solid
  | stray mark => exact absurd rfl (whole mark)

theorem aligned_of_whole {t : Text} {ps : List Piece} (partition : Partition t ps) (whole : ∀ mark, .stray mark ∉ ps)
    {depth : Nat} (straight : Straight (code depth) (textOf ps)) : Aligned depth ps := by
  induction ps generalizing t depth with
  | nil => exact .nil
  | cons piece ps ih =>
    refine aligned_cons partition.head (fun mark same => whole mark (by simp [same])) straight fun depth' reads => ?_
    refine ih partition.tail (fun mark inside => whole mark (List.mem_cons_of_mem _ inside)) ?_
    have behind := (wherever_append.mp straight).2
    rwa [reads] at behind

/-- Quotes that are closed, with no line feed escaped, are those of a complete string. -/
theorem exists_bodyLength?_of_unfolded {mark : Char} (isMark : IsMark mark) {depth : Nat} {t : Text}
    (ended : ((quoted depth mark false).read t).isQuoted = false) (unfolded : Unfolded (quoted depth mark false) t) :
    ∃ n, bodyLength? mark t = some n := by
  have notEscape : '\\' ≠ mark := by rcases isMark with rfl | rfl <;> decide
  fun_induction bodyLength? mark t with
  | case1 => cases ended
  | case2 => exact ⟨1, rfl⟩
  | case3 c other =>
    rw [read_cons, read_nil, step, if_neg other] at ended
    split at ended <;> cases ended
  | case4 => exact ⟨1, rfl⟩
  | case5 rest => cases unfolded ['\\'] rest rfl
  | case6 d rest _ _ ih =>
    have behind := (wherever_append (a := ['\\', d]).mp unfolded).2
    obtain ⟨n, found⟩ := ih ended behind
    exact ⟨n + 2, by rw [found]; rfl⟩
  | case7 c d rest other noEscape ih =>
    have stays : (quoted depth mark false).step c = quoted depth mark false := by simp [step, other, noEscape]
    have behind := (wherever_cons.mp unfolded).2
    rw [stays] at behind
    rw [read_cons, stays] at ended
    obtain ⟨n, found⟩ := ih ended behind
    exact ⟨n + 1, by rw [found]; rfl⟩

theorem aligned_of_unfolded {t : Text} {ps : List Piece} (partition : Partition t ps) {depth : Nat}
    (ended : ((code depth).read (textOf ps)).isQuoted = false) (straight : Straight (code depth) (textOf ps))
    (unfolded : Unfolded (code depth) (textOf ps)) : Aligned depth ps := by
  induction ps generalizing t depth with
  | nil => exact .nil
  | cons piece ps ih =>
    have behindStraight := (wherever_append.mp straight).2
    have behindUnfolded := (wherever_append.mp unfolded).2
    rw [textOf_cons, read_append] at ended
    refine aligned_cons partition.head ?_ straight fun depth' reads => ?_
    · rintro mark rfl
      cases partition.head with
      | stray isMark unclosed =>
        rw [Piece.text, read_cons, read_nil, isMark.step] at ended behindUnfolded
        obtain ⟨n, found⟩ := exists_bodyLength?_of_unfolded isMark ended behindUnfolded
        rw [(bodyLength?_eq_none_iff isMark).mpr unclosed] at found
        cases found
    · rw [reads] at ended behindStraight behindUnfolded
      exact ih partition.tail ended behindStraight behindUnfolded

namespace Aligned

variable {depth : Nat} {ps : List Piece}

theorem whole (aligned : Aligned depth ps) : ∀ mark, .stray mark ∉ ps := by
  intro mark inside
  induction aligned with
  | nil => cases inside
  | string _ _ _ ih => exact ih (by simpa using inside)
  | other fits noQuotes _ _ ih =>
    rcases List.mem_cons.mp inside with rfl | later
    · cases fits with
      | stray isMark => exact noQuotes mark (List.mem_cons_self ..) isMark.mem_quotes
    · exact ih later

theorem unfolded (aligned : Aligned depth ps) : Unfolded (code depth) (textOf ps) := by
  induction aligned with
  | nil => exact wherever_nil
  | @string depth mark body ps isMark string _ ih =>
    refine wherever_append.mpr ⟨wherever_cons.mpr ⟨fun _ => rfl, fun a b split => ?_⟩, ?_⟩
    · obtain ⟨escaped, within, sameLine⟩ := string.inside isMark depth split
      rw [isMark.step, within, isEscaped]
      exact eq_false_of_ne_true fun isTrue => sameLine isTrue rfl
    · have reads := still_quoted isMark (string.complete isMark)
      rwa [Piece.text, Token.text, reads]
  | @other depth depth' piece ps _ noQuotes reads _ ih =>
    refine wherever_append.mpr ⟨fun a b split => ?_, by rwa [reads]⟩
    have plain : ∀ c ∈ a, c ∉ quotes := fun c inside => noQuotes c (by simp [split, inside])
    obtain ⟨_, outside⟩ := staysCode_of_noQuotes plain depth
    rw [outside]
    rfl

theorem blanksOutside (aligned : Aligned depth ps) : BlanksOutside (code depth) ps := by
  induction aligned with
  | nil => exact fun _ _ _ split => by simp at split
  | string isMark string _ ih =>
    refine blanksOutside_cons.mpr ⟨fun _ _ => rfl, ?_⟩
    have reads := still_quoted isMark (string.complete isMark)
    rwa [Piece.text, Token.text, reads]
  | other _ _ reads _ ih => exact blanksOutside_cons.mpr ⟨fun _ _ => rfl, by rwa [reads]⟩

/-- With paired pipes, no piece is a pipe. -/
theorem no_pipe (aligned : Aligned depth ps) (paired : pipesPaired (code depth) (textOf ps) = true) :
    .token .pipe ∉ ps := by
  induction aligned with
  | nil => simp
  | @string depth mark body ps isMark string _ ih =>
    have later : pipesPaired (code depth) (textOf ps) = true := by
      rw [← still_quoted isMark (string.complete isMark) depth]
      refine pipesPaired_behind paired (wherever_cons.mpr ⟨fun isPipe => ?_, fun a b split => ?_⟩)
      · subst isPipe
        exact absurd isMark (by decide)
      · obtain ⟨escaped, within, -⟩ := string.inside isMark depth split
        rw [isMark.step, within, isQuoted]
    simpa using ih later
  | @other depth depth' piece ps fits noQuotes reads _ ih =>
    have silent (noPipe : '|' ∉ piece.text) : .token .pipe ∉ ps := by
      refine ih ?_
      rw [← reads]
      exact pipesPaired_behind paired (wherever_of_notMem noPipe)
    rw [List.mem_cons, not_or]
    cases fits with
    | quoted isMark => exact absurd isMark.mem_quotes (noQuotes _ (List.mem_cons_self ..))
    | or =>
      obtain ⟨rest, double, later⟩ := head_of_pipesPaired paired
      obtain ⟨-, rfl⟩ := List.cons.inj double
      cases reads
      exact ⟨by simp, ih later⟩
    | pipe lone =>
      obtain ⟨rest, double, -⟩ := head_of_pipesPaired paired
      exact absurd (by rw [show textOf ps = '|' :: rest from double]; rfl) lone
    | colon => exact ⟨by simp, silent (by decide)⟩
    | run _ trimmed =>
      refine ⟨by simp, silent fun inside => ?_⟩
      exact absurd (List.all_eq_true.mp trimmed.plain _ inside) (by decide)
    | blank _ blanks =>
      refine ⟨by simp, silent fun inside => ?_⟩
      exact absurd (List.all_eq_true.mp blanks _ inside) (by decide)
    | stray isMark => exact absurd isMark.mem_quotes (noQuotes _ (List.mem_cons_self ..))

end Aligned

/-- Where no backquote opens quotes and all quotes are closed, only an escaped line
    feed is read in two ways. -/
theorem readAlike_iff_unfolded {t : Text} (paired : pipesPaired top t = true) (ended : (top.read t).isQuoted = false)
    (straight : Straight top t) : ReadAlike t ↔ Unfolded top t := by
  have partition := partition_pieces t
  rw [← textOf_pieces t] at paired ended straight
  constructor
  · intro alike
    have unfolded := (aligned_of_whole partition alike.whole straight).unfolded
    rwa [textOf_pieces] at unfolded
  · intro unfolded
    rw [← textOf_pieces t] at unfolded
    have aligned := aligned_of_unfolded partition ended straight unfolded
    refine ⟨aligned.whole, fun isPipe => ?_, aligned.blanksOutside⟩
    obtain ⟨piece, inside, own⟩ := List.mem_filterMap.mp isPipe
    cases piece with
    | token token =>
      obtain rfl : token = .pipe := Option.some.inj own
      exact aligned.no_pipe paired inside
    | _ => cases own

/-- With paired pipes, nothing but blanks outside quotes is lost from an expression
    exactly if it is not rewritten or read alike. Closed quotes are read alike if
    backquotes stand within other quotes only and no line feed is escaped, and then no
    pipe makes a call. -/
theorem calls_lose_blanks_only (lookup : Text) {t : Text} (paired : pipesPaired top t = true) :
    (LosesBlanks top t (calls lookup t) ↔ (Rewritten t → ReadAlike t)) ∧
      ((top.read t).isQuoted = false → Straight top t → Unfolded top t →
        LosesBlanks top t (calls lookup t) ∧ .pipe ∉ tokens t) := by
  have agree := losesBlanks_calls_iff lookup paired
  refine ⟨agree, fun ended straight unfolded => ?_⟩
  have alike := (readAlike_iff_unfolded paired ended straight).mpr unfolded
  exact ⟨agree.mpr fun _ => alike, alike.plain⟩

/-- Operators around a string with an apostrophe, a pipe and a backquote. -/
def operators : Text := lit "a || \"it's | \x60b\" || c"

theorem calls_lose_blanks_only_operators :
    pipesPaired top operators = true ∧ (top.read operators).isQuoted = false ∧ Straight top operators ∧
      Unfolded top operators ∧ LosesBlanks top operators (lit "a||\"it's | \x60b\"||c") := by
  have paired : pipesPaired top operators = true := by decide +kernel
  have ended : (top.read operators).isQuoted = false := by decide +kernel
  have straight : Straight top operators := by decide +kernel
  have unfolded : Unfolded top operators := by decide +kernel
  have lost := ((calls_lose_blanks_only standardLookup paired).2 ended straight unfolded).1
  have written : calls standardLookup operators = lit "a||\"it's | \x60b\"||c" := by decide +kernel
  rw [written] at lost
  exact ⟨paired, ended, straight, unfolded, lost⟩

/-- A pipe in backquotes. -/
def backquoted : Text := lit "\x60a|b\x60"

/-- A pipe in a string, behind an escaped line feed. -/
def folded : Text := lit "'a\\\n|b'"

/-- In both of them the pipe makes a call. -/
theorem calls_break_quotes :
    ((top.read backquoted).isQuoted = false ∧ pipesPaired top backquoted = true ∧
        ¬ LosesBlanks top backquoted (calls standardLookup backquoted)) ∧
      (top.read folded).isQuoted = false ∧ pipesPaired top folded = true ∧
        ¬ LosesBlanks top folded (calls standardLookup folded) := by
  have written : calls standardLookup backquoted = lit "filters['b\x60'](\x60a)" := by decide +kernel
  have written' : calls standardLookup folded = lit "filters['b'](a\\)" := by decide +kernel
  have solid : Text.isBlank '(' = false := by decide
  refine ⟨⟨by decide +kernel, by decide +kernel, fun lost => ?_⟩, by decide +kernel, by decide +kernel, fun lost => ?_⟩
  · rw [written] at lost
    exact absurd (lost.count_eq solid) (by decide)
  · rw [written'] at lost
    exact absurd (lost.count_eq solid) (by decide)

end Filter
end Bindmark
