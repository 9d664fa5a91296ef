import Bindmark.Proofs.Splitting

/-!
# Separators that do not count

Texts in which no comma and no colon counts, so that they are part of one unit
of a directive string: strings, and calls around expressions whose brackets
match. How deep in brackets a text leads is added up part by part.
-/

namespace Bindmark.Reading

/-! ## Hidden separators -/

/-- Read on from `r`, a text has no separator outside quotes and brackets. -/
def Hidden (separator : Char) (r : Reading) (t : Text) : Prop :=
  ∀ a b, t = a ++ separator :: b → r.read a ≠ top

theorem hidden_nil (separator : Char) (r : Reading) : Hidden separator r [] := by
  intro a b split
  cases a <;> cases split

theorem hidden_cons {separator : Char} {r : Reading} {c : Char} {t : Text} :
    Hidden separator r (c :: t) ↔ ¬ (r = top ∧ c = separator) ∧ Hidden separator (r.step c) t := by
  constructor
  · intro hidden
    refine ⟨?_, fun a b split => hidden (c :: a) b (by rw [split]; rfl)⟩
    rintro ⟨isTop, rfl⟩
    exact hidden [] t rfl isTop
  · rintro ⟨here, later⟩ a b split
    cases a with
    | nil =>
      obtain ⟨rfl, rfl⟩ := List.cons.inj split
      exact fun isTop => here ⟨isTop, rfl⟩
    | cons d a =>
      obtain ⟨rfl, rfl⟩ := List.cons.inj split
      exact later a b rfl

theorem Hidden.append {separator : Char} {r : Reading} {a b : Text} (first : Hidden separator r a)
    (second : Hidden separator (r.read a) b) : Hidden separator r (a ++ b) := by
  induction a generalizing r with
  | nil => exact second
  | cons c a ih =>
    obtain ⟨here, later⟩ := hidden_cons.mp first
    exact hidden_cons.mpr ⟨here, ih later second⟩

theorem Hidden.of_append {separator : Char} {r : Reading} {a b : Text} (whole : Hidden separator r (a ++ b)) :
    Hidden separator (r.read a) b := by
  intro front rest split
  rw [← read_append]
  exact whole (a ++ front) rest (by rw [split, List.append_assoc])

theorem hidden_top_iff {separator : Char} {t : Text} : Hidden separator top t ↔ ¬ TopLevel separator t := by
  rw [← cutAt?_top_eq_none_iff, cutAt?_eq_none_iff, Hidden]

instance (separator : Char) (r : Reading) (t : Text) : Decidable (Hidden separator r t) :=
  decidable_of_iff _ (cutAt?_eq_none_iff separator r t)

/-- A closed text in which no comma and no colon counts. -/
structure Sealed (t : Text) : Prop where
  closed : Closed t
  comma : Hidden ',' top t
  colon : Hidden ':' top t

theorem sealed_nil : Sealed [] := ⟨rfl, hidden_nil _ _, hidden_nil _ _⟩

theorem Sealed.append {a b : Text} (first : Sealed a) (second : Sealed b) : Sealed (a ++ b) where
  closed := first.closed.append second.closed
  comma := first.comma.append (by rw [first.closed]; exact second.comma)
  colon := first.colon.append (by rw [first.closed]; exact second.colon)

/-- Behind a sealed text only what is sealed keeps it so. -/
theorem Sealed.append_iff {a b : Text} (first : Sealed a) : Sealed (a ++ b) ↔ Sealed b := by
  refine ⟨fun whole => ⟨?_, ?_, ?_⟩, first.append⟩
  · have closed := whole.closed
    rwa [Closed, read_append, first.closed] at closed
  · have hidden := whole.comma.of_append
    rwa [first.closed] at hidden
  · have hidden := whole.colon.of_append
    rwa [first.closed] at hidden

/-! ## Strings -/

/-- Within quotes whose mark does not come again, and without escapes, a reader
    stays as it is. -/
theorem read_string {mark : Char} {t : Text} (noMark : mark ∉ t) (noEscape : '\\' ∉ t) (depth : Nat) :
    (quoted depth mark false).read t = quoted depth mark false := by
  induction t with
  | nil => rfl
  | cons c t ih =>
    obtain ⟨other, noMark⟩ := not_or.mp (mt List.mem_cons.mpr noMark)
    obtain ⟨plain, noEscape⟩ := not_or.mp (mt List.mem_cons.mpr noEscape)
    have stays : (quoted depth mark false).step c = quoted depth mark false := by
      simp [step, Ne.symm other, Ne.symm plain]
    rw [read_cons, stays, ih noMark noEscape]

theorem hidden_string {separator mark : Char} {t : Text} (noMark : mark ∉ t) (noEscape : '\\' ∉ t) (depth : Nat) :
    Hidden separator (quoted depth mark false) t := by
  intro a b split
  rw [split] at noMark noEscape
  rw [read_string (fun inside => noMark (List.mem_append_left _ inside))
    (fun inside => noEscape (List.mem_append_left _ inside))]
  simp

/-- A string without quotes and backslashes in it. -/
theorem sealed_string {t : Text} (noQuote : '"' ∉ t) (noEscape : '\\' ∉ t) :
    Sealed (lit "\"" ++ t ++ lit "\"") := by
  have opened : top.read (lit "\"") = quoted 0 '"' false := by decide
  have inside := read_string noQuote noEscape 0
  have hidden (separator : Char) (plain : separator ≠ '"') : Hidden separator top (lit "\"" ++ t ++ lit "\"") := by
    have mark (r : Reading) : Hidden separator r (lit "\"") :=
      hidden_cons.mpr ⟨fun ⟨_, same⟩ => plain same.symm, hidden_nil _ _⟩
    refine ((mark top).append ?_).append (mark _)
    rw [opened]
    exact hidden_string noQuote noEscape 0
  refine ⟨?_, hidden ',' (by decide), hidden ':' (by decide)⟩
  rw [Closed, read_append, read_append, opened, inside]
  decide

/-! ## Brackets that match -/

/-- The reader, in more brackets. -/
def raise (more : Nat) : Reading → Reading
  | .code depth => .code (depth + more)
  | .quoted depth mark escaped => .quoted (depth + more) mark escaped

/-- Read on from `r`, no bracket is closed that was not opened. -/
def Matched (r : Reading) (t : Text) : Prop := ∀ a c b, t = a ++ c :: b → c ∈ closers → r.read a ≠ top

theorem step_raise (more : Nat) {r : Reading} {c : Char} (matched : c ∈ closers → r ≠ top) :
    (raise more r).step c = raise more (r.step c) := by
  rcases r with depth | ⟨depth, mark, _ | _⟩
  · -- At depth 0 a closing bracket would be read as stray in one and not in the other.
    have deep : c ∈ closers → 1 ≤ depth := fun closer => by
      have := matched closer
      simp only [ne_eq, code.injEq] at this
      omega
    simp only [raise, step]
    split_ifs with _ _ closer <;> simp
    · omega
    · have := deep closer
      omega
  · simp only [raise, step]
    split_ifs <;> rfl
  · rfl

/-- Within more brackets a text is read in the same way. -/
theorem read_raise (more : Nat) {r : Reading} {t : Text} (matched : Matched r t) :
    (raise more r).read t = raise more (r.read t) := by
  induction t generalizing r with
  | nil => rfl
  | cons c t ih =>
    have later : Matched (r.step c) t := fun a d b split closer => matched (c :: a) d b (by rw [split]; rfl) closer
    have here : c ∈ closers → r ≠ top := matched [] c t rfl
    rw [read_cons, read_cons, step_raise more here, ih later]

/-- Every bracket and every quote of a text is closed, and what is closed was
    opened. -/
structure Balanced (t : Text) : Prop where
  closed : Closed t
  matched : Matched top t

theorem matched_nil (r : Reading) : Matched r [] := by
  intro a c b split
  cases a <;> cases split

theorem matched_cons {r : Reading} {c : Char} {t : Text} :
    Matched r (c :: t) ↔ (c ∈ closers → r ≠ top) ∧ Matched (r.step c) t := by
  constructor
  · intro matched
    exact ⟨matched [] c t rfl, fun a d b split => matched (c :: a) d b (by rw [split]; rfl)⟩
  · rintro ⟨here, later⟩ a d b split
    cases a with
    | nil =>
      obtain ⟨rfl, rfl⟩ := List.cons.inj split
      exact here
    | cons e a =>
      obtain ⟨rfl, rfl⟩ := List.cons.inj split
      exact later a d b rfl

theorem matched_append {r : Reading} {a b : Text} : Matched r (a ++ b) ↔ Matched r a ∧ Matched (r.read a) b := by
  induction a generalizing r with
  | nil => simp [matched_nil]
  | cons c a ih => rw [List.cons_append, matched_cons, ih, matched_cons, and_assoc, read_cons]

instance decidableMatched : ∀ (r : Reading) (t : Text), Decidable (Matched r t)
  | r, [] => isTrue (matched_nil r)
  | r, c :: t =>
    have := decidableMatched (r.step c) t
    decidable_of_iff _ matched_cons.symm

instance (t : Text) : Decidable (Balanced t) :=
  decidable_of_iff (Closed t ∧ Matched top t)
    ⟨fun ⟨closed, matched⟩ => ⟨closed, matched⟩, fun b => ⟨b.closed, b.matched⟩⟩

/-! ## Depths -/

/-- From within `depth` brackets a text leads to within `depth'` of them, outside
    quotes at both ends, and closes no bracket that is not open. -/
structure Leads (depth : Nat) (t : Text) (depth' : Nat) : Prop where
  read : (code depth).read t = code depth'
  matched : Matched (code depth) t

theorem balanced_iff_leads {t : Text} : Balanced t ↔ Leads 0 t 0 :=
  ⟨fun balanced => ⟨balanced.closed, balanced.matched⟩, fun leads => ⟨leads.read, leads.matched⟩⟩

theorem Leads.append {a b : Text} {depth between depth' : Nat} (first : Leads depth a between)
    (second : Leads between b depth') : Leads depth (a ++ b) depth' where
  read := by rw [read_append, first.read, second.read]
  matched := matched_append.mpr ⟨first.matched, by rw [first.read]; exact second.matched⟩

theorem Balanced.append {a b : Text} (first : Balanced a) (second : Balanced b) : Balanced (a ++ b) :=
  balanced_iff_leads.mpr ((balanced_iff_leads.mp first).append (balanced_iff_leads.mp second))

/-- A text is cut where the reader is outside quotes. -/
theorem Leads.cut {a b : Text} {depth between depth' : Nat} (whole : Leads depth (a ++ b) depth')
    (read : (code depth).read a = code between) : Leads depth a between ∧ Leads between b depth' := by
  obtain ⟨first, second⟩ := matched_append.mp whole.matched
  rw [read] at second
  refine ⟨⟨read, first⟩, ⟨?_, second⟩⟩
  rw [← read, ← read_append, whole.read]

/-- Within more brackets a text leads as far. -/
theorem Leads.raise {t : Text} {depth depth' : Nat} (leads : Leads depth t depth') (more : Nat) :
    Leads (depth + more) t (depth' + more) where
  read := by
    have raised := read_raise more leads.matched
    rwa [leads.read] at raised
  matched := by
    intro a c b split closer
    have start : Matched (code depth) a := by
      have whole := leads.matched
      rw [split] at whole
      exact (matched_append.mp whole).1
    have open_ := leads.matched a c b split closer
    change (Reading.raise more (code depth)).read a ≠ top
    rw [read_raise more start]
    cases inside : (code depth).read a with
    | code within =>
      rw [inside] at open_
      simp only [Reading.raise, ne_eq, code.injEq] at open_ ⊢
      omega
    | quoted within mark escaped => simp [Reading.raise]

theorem Leads.unique {t : Text} {depth one other : Nat} (first : Leads depth t one) (second : Leads depth t other) :
    one = other := by
  have same := first.read.symm.trans second.read
  injection same

theorem depth_le_step_succ (r : Reading) (c : Char) : r.depth ≤ (r.step c).depth + 1 := by
  rcases r with depth | ⟨depth, mark, _ | _⟩
  · rw [step]
    split_ifs <;> simp only [Reading.depth] <;> omega
  · rw [step]
    split_ifs <;> simp [Reading.depth]
  · simp [step, Reading.depth]

/-- A text closes no more brackets than it has characters. -/
theorem matched_of_length_le {r : Reading} {t : Text} (deep : t.length ≤ r.depth) : Matched r t := by
  induction t generalizing r with
  | nil => exact matched_nil r
  | cons c t ih =>
    rw [List.length_cons] at deep
    have close := depth_le_step_succ r c
    refine matched_cons.mpr ⟨?_, ih (by omega)⟩
    rintro _ rfl
    simp [Reading.depth] at deep

/-- How many more brackets a text opens than it closes, read from so deep that
    none that it closes is stray. -/
def net (t : Text) : Int := ((code t.length).read t).depth - t.length

theorem Leads.net_eq {t : Text} {depth depth' : Nat} (leads : Leads depth t depth') :
    (depth' : Int) = depth + net t := by
  have whole := (leads.raise t.length).read
  have start : code (depth + t.length) = Reading.raise depth (code t.length) := by simp [Reading.raise, Nat.add_comm]
  rw [start, read_raise depth (matched_of_length_le (Nat.le_refl _))] at whole
  rw [net]
  cases inside : (code t.length).read t with
  | code own =>
    rw [inside] at whole
    simp only [Reading.raise, code.injEq] at whole
    simp only [Reading.depth]
    omega
  | quoted own mark escaped =>
    rw [inside] at whole
    cases whole

/-! ## Calls -/

/-- Brackets around a balanced text. -/
theorem Sealed.enclose {name t : Text} {opening closing : Char} (sealed : Sealed name) (balanced : Balanced t)
    (opener : opening ∈ openers) (closer : closing ∈ closers) : Sealed (name ++ [opening] ++ t ++ [closing]) := by
  have opens : top.read [opening] = raise 1 top := by
    simp only [openers, List.mem_cons, List.not_mem_nil, or_false] at opener
    rcases opener with rfl | rfl | rfl <;> rfl
  have closes : (raise 1 top).read [closing] = top := by
    simp only [closers, List.mem_cons, List.not_mem_nil, or_false] at closer
    rcases closer with rfl | rfl | rfl <;> rfl
  have before : top.read (name ++ [opening]) = raise 1 top := by rw [read_append, sealed.closed, opens]
  have inside : (raise 1 top).read t = raise 1 top := by rw [read_raise 1 balanced.matched, balanced.closed]
  have within (separator : Char) : Hidden separator (raise 1 top) t := by
    intro a b split
    have matched : Matched top a := fun p c q parts closer =>
      balanced.matched p c (q ++ separator :: b) (by rw [split, parts]; simp) closer
    rw [read_raise 1 matched]
    cases top.read a <;> simp [raise]
  have hidden (separator : Char) (named : Hidden separator top name) (plain : separator ∉ openers ++ closers) :
      Hidden separator top (name ++ [opening] ++ t ++ [closing]) := by
    have mark (r : Reading) (c : Char) (bracket : c ∈ openers ++ closers) : Hidden separator r [c] :=
      hidden_cons.mpr ⟨fun both => plain (both.2 ▸ bracket), hidden_nil _ _⟩
    refine ((named.append (mark _ _ (List.mem_append_left _ opener))).append ?_).append
      (mark _ _ (List.mem_append_right _ closer))
    rw [before]
    exact within separator
  refine ⟨?_, hidden ',' sealed.comma (by decide), hidden ':' sealed.colon (by decide)⟩
  rw [Closed, read_append, read_append, before, inside, closes]

/-- A call around a balanced text. -/
theorem Sealed.call {name t : Text} (sealed : Sealed name) (balanced : Balanced t) :
    Sealed (name ++ lit "(" ++ t ++ lit ")") := by
  have opener : '(' ∈ openers := by decide
  have closer : ')' ∈ closers := by decide
  exact sealed.enclose balanced opener closer

end Bindmark.Reading
