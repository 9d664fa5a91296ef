import Bindmark.Proofs.Interpolated

/-!
# Literals in quotes

A literal of an interpolated value is written in double quotes, and only its
double quotes are escaped. A backslash of its own is read as an escape again.
So a literal is read back as it is exactly when it holds no backslash, and it
breaks out of its quotes exactly when an odd run of backslashes comes directly
before a quote or at its end.
-/

namespace Bindmark.Interpolation

open Reading

/-! ## Strings -/

/-- A text with its escapes undone: a backslash gives way to the character
    after it. -/
def unescape : Text → Text
  | [] => []
  | [c] => [c]
  | c :: d :: rest => if c = '\\' then d :: unescape rest else c :: unescape (d :: rest)

/-- One complete string: however deep in brackets it stands, a reader is within
    its quotes all along the body, and outside again after the last quote. -/
structure IsString (t body : Text) : Prop where
  marks : t = '"' :: body ++ ['"']
  inside : ∀ depth start, start <+: body → ∃ escaped, (quoted depth '"' false).read start = quoted depth '"' escaped
  ends : ∀ depth, (code depth).read t = code depth

/-- A reader stays within double quotes, and no escape is left open. -/
structure Within (body : Text) : Prop where
  inside : ∀ depth start, start <+: body → ∃ escaped, (quoted depth '"' false).read start = quoted depth '"' escaped
  ends : ∀ depth, (quoted depth '"' false).read body = quoted depth '"' false

theorem isString_iff {t body : Text} : IsString t body ↔ t = '"' :: body ++ ['"'] ∧ Within body := by
  have opened (depth : Nat) : (code depth).step '"' = quoted depth '"' false := by simp [step, quotes]
  constructor
  · rintro ⟨rfl, inside, ends⟩
    refine ⟨rfl, inside, fun depth => ?_⟩
    obtain ⟨escaped, stays⟩ := inside depth body (List.prefix_refl body)
    have closed := ends depth
    rw [List.cons_append, read_cons, opened, read_append, stays] at closed
    cases escaped
    · exact stays
    · cases closed
  · rintro ⟨rfl, within⟩
    refine ⟨rfl, within.inside, fun depth => ?_⟩
    rw [List.cons_append, read_cons, opened, read_append, within.ends]
    simp [step]

/-! ## Staying within quotes -/

theorem within_nil : Within [] where
  inside _ start begins := ⟨false, by rw [List.prefix_nil.mp begins]; rfl⟩
  ends _ := rfl

theorem within_plain {c : Char} {body : Text} (noQuote : c ≠ '"') (noEscape : c ≠ '\\') :
    Within (c :: body) ↔ Within body := by
  have stays (depth : Nat) : (quoted depth '"' false).step c = quoted depth '"' false := by
    simp [step, noQuote, noEscape]
  constructor
  · rintro ⟨inside, ends⟩
    refine ⟨fun depth start begins => ?_, fun depth => ?_⟩
    · simpa [stays] using inside depth (c :: start) (List.prefix_cons_inj c |>.mpr begins)
    · simpa [stays] using ends depth
  · rintro ⟨inside, ends⟩
    refine ⟨fun depth start begins => ?_, fun depth => by simpa [stays] using ends depth⟩
    rcases List.prefix_cons_iff.mp begins with rfl | ⟨start, rfl, later⟩
    · exact ⟨false, rfl⟩
    · simpa [stays] using inside depth start later

theorem within_escape {c : Char} {body : Text} : Within ('\\' :: c :: body) ↔ Within body := by
  have stays (depth : Nat) : ((quoted depth '"' false).step '\\').step c = quoted depth '"' false := by simp [step]
  constructor
  · rintro ⟨inside, ends⟩
    refine ⟨fun depth start begins => ?_, fun depth => ?_⟩
    · have longer : '\\' :: c :: start <+: '\\' :: c :: body :=
        List.prefix_cons_inj _ |>.mpr (List.prefix_cons_inj _ |>.mpr begins)
      simpa [stays] using inside depth _ longer
    · simpa [stays] using ends depth
  · rintro ⟨inside, ends⟩
    refine ⟨fun depth start begins => ?_, fun depth => by simpa [stays] using ends depth⟩
    rcases List.prefix_cons_iff.mp begins with rfl | ⟨start, rfl, later⟩
    · exact ⟨false, rfl⟩
    · rcases List.prefix_cons_iff.mp later with rfl | ⟨start, rfl, within⟩
      · exact ⟨true, by simp [step]⟩
      · simpa [stays] using inside depth start within

theorem not_within_quote (body : Text) : ¬ Within ('"' :: body) := by
  rintro ⟨inside, -⟩
  obtain ⟨escaped, stays⟩ := inside 0 ['"'] ⟨body, rfl⟩
  simp [step] at stays

theorem not_within_lone : ¬ Within ['\\'] := by
  rintro ⟨-, ends⟩
  have := ends 0
  simp [step] at this

/-! ## Runs of backslashes -/

/-- An odd run of backslashes comes directly before a quote or at the end. -/
def BreaksOut (t : Text) : Prop :=
  ∃ before n after, t = before ++ List.replicate (2 * n + 1) '\\' ++ after ∧
    before.getLast? ≠ some '\\' ∧ ∀ c, after.head? = some c → c = '"'

theorem not_breaksOut_nil : ¬ BreaksOut [] := by
  rintro ⟨before, n, after, split, -⟩
  have := congrArg List.length split
  simp only [List.length_nil, List.length_append, List.length_replicate] at this
  omega

theorem breaksOut_lone : BreaksOut ['\\'] := ⟨[], 0, [], rfl, by simp, by simp⟩

theorem breaksOut_plain {c : Char} {t : Text} (noEscape : c ≠ '\\') : BreaksOut (c :: t) ↔ BreaksOut t := by
  constructor
  · rintro ⟨before, n, after, split, last, follows⟩
    cases before with
    | nil => exact absurd (List.cons.inj split).1 noEscape
    | cons d before =>
      obtain ⟨rfl, rfl⟩ := List.cons.inj split
      refine ⟨before, n, after, rfl, fun ends => last ?_, follows⟩
      rw [List.getLast?_cons, ends]
      rfl
  · rintro ⟨before, n, after, rfl, last, follows⟩
    refine ⟨c :: before, n, after, rfl, ?_, follows⟩
    rw [List.getLast?_cons]
    cases ends : before.getLast? with
    | none => simpa using noEscape
    | some d =>
      rintro same
      exact last (ends.trans same)

theorem breaksOut_escape {c : Char} {t : Text} : BreaksOut ('\\' :: c :: t) ↔ c = '"' ∨ BreaksOut t := by
  constructor
  · rintro ⟨before, n, after, split, last, follows⟩
    rcases before with _ | ⟨d, _ | ⟨e, before⟩⟩
    · cases n with
      | zero =>
        obtain rfl : c :: t = after := (List.cons.inj split).2
        exact .inl (follows c rfl)
      | succ n =>
        have run : List.replicate (2 * (n + 1) + 1) '\\' = '\\' :: '\\' :: List.replicate (2 * n + 1) '\\' := rfl
        rw [run] at split
        obtain ⟨-, split⟩ := List.cons.inj split
        obtain ⟨-, rfl⟩ := List.cons.inj split
        exact .inr ⟨[], n, after, rfl, by simp, follows⟩
    · obtain ⟨rfl, -⟩ := List.cons.inj split
      exact absurd rfl last
    · obtain ⟨-, split⟩ := List.cons.inj split
      obtain ⟨rfl, rfl⟩ := List.cons.inj split
      refine .inr ⟨before, n, after, rfl, fun ends => last ?_, follows⟩
      rw [List.getLast?_cons, List.getLast?_cons, ends]
      rfl
  · rintro (rfl | ⟨before, n, after, rfl, last, follows⟩)
    · exact ⟨[], 0, '"' :: t, rfl, by simp, by simp⟩
    · by_cases run : before = [] ∧ c = '\\'
      · obtain ⟨rfl, rfl⟩ := run
        exact ⟨[], n + 1, after, rfl, by simp, follows⟩
      · refine ⟨'\\' :: c :: before, n, after, rfl, ?_, follows⟩
        rw [List.getLast?_cons, List.getLast?_cons]
        cases ends : before.getLast? with
        | none =>
          rintro same
          exact run ⟨List.getLast?_eq_none_iff.mp ends, by simpa using same⟩
        | some d =>
          rintro same
          exact last (ends.trans same)

/-! ## Escaped literals -/

/-- A literal as it stands between its quotes. -/
def escaped (t : Text) : Text := Text.replaceChar '"' (lit "\\\"") t

theorem quoteLiteral_eq_escaped (t : Text) : quoteLiteral t = '"' :: escaped t ++ ['"'] := rfl

theorem escaped_quote (t : Text) : escaped ('"' :: t) = '\\' :: '"' :: escaped t := rfl

theorem escaped_cons {c : Char} (noQuote : c ≠ '"') (t : Text) : escaped (c :: t) = c :: escaped t := by
  simp [escaped, Text.replaceChar, noQuote]

/-- A literal stays within its quotes unless it breaks out of them. -/
theorem within_escaped_iff (t : Text) : Within (escaped t) ↔ ¬ BreaksOut t := by
  fun_induction unescape t with
  | case1 => exact iff_of_true within_nil not_breaksOut_nil
  | case2 c =>
    by_cases quote : c = '"'
    · subst quote
      rw [escaped_quote, within_escape, breaksOut_plain (by decide)]
      exact iff_of_true within_nil not_breaksOut_nil
    · rw [escaped_cons quote]
      by_cases escape : c = '\\'
      · subst escape
        exact iff_of_false not_within_lone (not_not.mpr breaksOut_lone)
      · rw [within_plain quote escape, breaksOut_plain escape]
        exact iff_of_true within_nil not_breaksOut_nil
  | case3 d rest ih =>
    rw [breaksOut_escape, escaped_cons (by decide)]
    by_cases quote : d = '"'
    · subst quote
      -- The backslash that is to escape the quote is escaped itself, and the quote ends the string.
      rw [escaped_quote, within_escape]
      exact iff_of_false (not_within_quote _) (by simp)
    · rw [escaped_cons quote, within_escape, ih]
      simp [quote]
  | case4 c d rest escape ih =>
    rw [breaksOut_plain escape]
    by_cases quote : c = '"'
    · subst quote
      rw [escaped_quote, within_escape, ih]
    · rw [escaped_cons quote, within_plain quote escape, ih]

theorem unescape_escape (c : Char) (t : Text) : unescape ('\\' :: c :: t) = c :: unescape t := by
  rw [unescape, if_pos rfl]

theorem unescape_cons {c : Char} (noEscape : c ≠ '\\') (t : Text) : unescape (c :: t) = c :: unescape t := by
  cases t with
  | nil => rfl
  | cons d t => rw [unescape, if_neg noEscape]

theorem length_unescape_escaped (t : Text) : (unescape (escaped t)).length ≤ t.length := by
  fun_induction unescape t with
  | case1 => exact Nat.le_refl _
  | case2 c =>
    by_cases quote : c = '"'
    · subst quote
      exact Nat.le_refl _
    · rw [escaped_cons quote]
      exact Nat.le_refl _
  | case3 d rest ih =>
    rw [escaped_cons (by decide)]
    by_cases quote : d = '"'
    · subst quote
      rw [escaped_quote, unescape_escape, unescape_cons (by decide)]
      simpa using ih
    · rw [escaped_cons quote, unescape_escape]
      simp only [List.length_cons]
      omega
  | case4 c d rest escape ih =>
    by_cases quote : c = '"'
    · subst quote
      rw [escaped_quote, unescape_escape]
      simpa using ih
    · rw [escaped_cons quote, unescape_cons escape]
      simpa using ih

/-- Undoing the escapes of a literal gives it back when it holds no backslash. -/
theorem unescape_escaped {t : Text} (noEscape : '\\' ∉ t) : unescape (escaped t) = t := by
  induction t with
  | nil => rfl
  | cons c t ih =>
    obtain ⟨plain, later⟩ := not_or.mp (mt List.mem_cons.mpr noEscape)
    by_cases quote : c = '"'
    · subst quote
      rw [escaped_quote, unescape_escape, ih later]
    · rw [escaped_cons quote, unescape_cons (Ne.symm plain), ih later]

theorem not_breaksOut {t : Text} (noEscape : '\\' ∉ t) : ¬ BreaksOut t := by
  rintro ⟨before, n, after, rfl, -⟩
  exact noEscape (by simp)

/-- A literal that stays within its quotes is read back as it is only when it
    holds no backslash. -/
theorem noEscape_of_unescape_escaped {t : Text} (within : ¬ BreaksOut t) (same : unescape (escaped t) = t) :
    '\\' ∉ t := by
  fun_induction unescape t with
  | case1 => exact List.not_mem_nil
  | case2 c =>
    rw [List.mem_singleton]
    rintro rfl
    exact within breaksOut_lone
  | case3 d rest ih =>
    rw [breaksOut_escape, not_or] at within
    -- The backslash is taken for an escape, so that one character less is read back.
    rw [escaped_cons (by decide), escaped_cons within.1, unescape_escape] at same
    have shorter := length_unescape_escaped rest
    have lengths := congrArg List.length same
    simp only [List.length_cons] at lengths
    omega
  | case4 c d rest escape ih =>
    rw [breaksOut_plain escape] at within
    have later : unescape (escaped (d :: rest)) = d :: rest := by
      by_cases quote : c = '"'
      · subst quote
        rw [escaped_quote, unescape_escape] at same
        exact (List.cons.inj same).2
      · rw [escaped_cons quote, unescape_cons escape] at same
        exact (List.cons.inj same).2
    exact List.not_mem_cons_of_ne_of_not_mem (Ne.symm escape) (ih within later)

/-! ## Literals of a value -/

theorem isString_quoteLiteral {t body : Text} :
    IsString (quoteLiteral t) body ↔ body = escaped t ∧ ¬ BreaksOut t := by
  rw [isString_iff, quoteLiteral_eq_escaped, ← within_escaped_iff]
  constructor
  · rintro ⟨split, within⟩
    obtain rfl : escaped t = body := List.append_cancel_right (List.cons.inj split).2
    exact ⟨rfl, within⟩
  · rintro ⟨rfl, within⟩
    exact ⟨rfl, within⟩

/-- A value of several segments is the sum of its terms. The term of a literal
    is one complete string exactly when no odd run of backslashes comes directly
    before a quote of the literal or at its end, and a reader is then as deep in
    brackets after the term as before it. The string is the literal itself, once
    its escapes are undone, exactly when the literal holds no backslash. -/
theorem literal_is_string_iff (s : Settings) {segments : List Segment} (several : 2 ≤ segments.length) :
    attributeValue s segments = lit "\"\"+" ++ Text.join (lit "+") (segments.map (term s)) ∧
      ∀ t, .literal t ∈ segments →
        ((∃ body, IsString (term s (.literal t)) body) ↔ ¬ BreaksOut t) ∧
        (¬ BreaksOut t → ∀ depth, (code depth).read (term s (.literal t)) = code depth) ∧
        ((∃ body, IsString (term s (.literal t)) body ∧ unescape body = t) ↔ '\\' ∉ t) := by
  refine ⟨attributeValue_several s several, fun t _ => ⟨?_, fun within => ?_, ?_⟩⟩
  · constructor
    · rintro ⟨body, string⟩
      exact (isString_quoteLiteral.mp string).2
    · exact fun within => ⟨_, isString_quoteLiteral.mpr ⟨rfl, within⟩⟩
  · exact (isString_quoteLiteral.mpr ⟨rfl, within⟩).ends
  · constructor
    · rintro ⟨body, string, same⟩
      obtain ⟨rfl, within⟩ := isString_quoteLiteral.mp string
      exact noEscape_of_unescape_escaped within same
    · intro noEscape
      exact ⟨_, isString_quoteLiteral.mpr ⟨rfl, not_breaksOut noEscape⟩, unescape_escaped noEscape⟩

/-- The segments of a value with a backslash before its expression. -/
def pathSegments : List Segment := [.literal (lit "C:\\"), .expression (lit "x")]

theorem literal_is_string_iff_path :
    2 ≤ pathSegments.length ∧ .literal (lit "C:\\") ∈ pathSegments ∧
      attributeValue {} pathSegments = lit "\"\"+\"C:\\\"+unwrap(x)" ∧
      (¬ ∃ body, IsString (term {} (.literal (lit "C:\\"))) body) ∧
      ¬ ∃ body, IsString (term {} (.literal (lit "C:\\"))) body ∧ unescape body = lit "C:\\" := by
  have several : 2 ≤ pathSegments.length := by decide
  have stands : .literal (lit "C:\\") ∈ pathSegments := by decide
  have breaks : BreaksOut (lit "C:\\") := ⟨lit "C:", 0, [], rfl, by decide, by simp⟩
  obtain ⟨value, literals⟩ := literal_is_string_iff {} several
  obtain ⟨complete, -, same⟩ := literals _ stands
  exact ⟨several, stands, value, fun string => complete.mp string breaks, fun string => same.mp string (by decide)⟩

/-- The directive behind such a value is read as part of it. -/
example : Pair.split (lit "title:" ++ attributeValue {} pathSegments ++ lit ",visible") =
    [⟨lit "title", some (lit "\"\"+\"C:\\\"+unwrap(x),visible")⟩] := by
  decide

end Bindmark.Interpolation
