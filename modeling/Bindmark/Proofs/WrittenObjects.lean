import Bindmark.Proofs.Names
import Bindmark.Proofs.Properties
import Bindmark.Proofs.Rereading

/-!
# Reading written objects

An object is read, the properties that have a function are preprocessed, and the
rest is written again as it was read. Plain keys are written bare and others in
single quotes. A quoted key is read without its quotes, but nothing undoes the
backslashes that are put before the single quotes in it, and a backslash at its
end escapes the quote behind it. So what is written is read back exactly when no
key that is not plain holds a single quote or leaves its quotes open.
-/

namespace Bindmark

open Reading Work

namespace Pair

/-! ## Written keys -/

/-- A key as it stands between single quotes. -/
def escapedKey (k : Text) : Text := Text.replaceChar '\'' (lit "\\'") k

theorem escapedKey_quote (k : Text) : escapedKey ('\'' :: k) = '\\' :: '\'' :: escapedKey k := rfl

theorem escapedKey_cons {c : Char} (other : c ≠ '\'') (k : Text) : escapedKey (c :: k) = c :: escapedKey k := by
  simp [escapedKey, Text.replaceChar, other]

theorem escapedKey_eq_self {k : Text} (noQuote : '\'' ∉ k) : escapedKey k = k := by
  induction k with
  | nil => rfl
  | cons c k ih =>
    obtain ⟨other, noQuote⟩ := not_or.mp (mt List.mem_cons.mpr noQuote)
    rw [escapedKey_cons (Ne.symm other), ih noQuote]

theorem writeKey_of_not_plain {k : Text} (quoted : ¬ Text.isPlainKey k = true) :
    writeKey k = '\'' :: (escapedKey k ++ ['\'']) := by
  rw [writeKey, if_neg quoted]
  rfl

theorem ordinary_of_isPlainKey {k : Text} (plain : Text.isPlainKey k = true) : Ordinary k := by
  have first : specials.all (fun c => !(c == '$' || c == '_' || c.isAlpha)) = true := by decide
  have later : specials.all (fun c => !Text.isIdentifierPart c) = true := by decide +kernel
  cases k with
  | nil => cases plain
  | cons c k =>
    rw [Text.isPlainKey, Bool.and_eq_true] at plain
    intro d inside special
    rcases List.mem_cons.mp inside with rfl | inside
    · have other := List.all_eq_true.mp first d special
      rw [plain.1] at other
      cases other
    · have other := List.all_eq_true.mp later d special
      rw [List.all_eq_true.mp plain.2 d inside] at other
      cases other

/-- A key that is read as it is written: it is plain, or it holds no single quote
    and is closed between single quotes. -/
def ReadsBack (k : Text) : Prop := Text.isPlainKey k = true ∨ '\'' ∉ k ∧ Closed ('\'' :: (k ++ ['\'']))

/-- Without single quotes and backslashes a key is read back, whatever else it holds. -/
theorem readsBack_of_noEscape {k : Text} (noQuote : '\'' ∉ k) (noEscape : '\\' ∉ k) : ReadsBack k := by
  have opened : top.step '\'' = quoted 0 '\'' false := by decide
  have within : (quoted 0 '\'' false).read k = quoted 0 '\'' false := read_string noQuote noEscape 0
  refine .inr ⟨noQuote, ?_⟩
  rw [Closed, read_cons, opened, read_append, within]
  decide

/-- No separator counts in quotes that are closed. -/
theorem sealed_quoted {k : Text} (noQuote : '\'' ∉ k) (closed : Closed ('\'' :: (k ++ ['\'']))) :
    Sealed ('\'' :: (k ++ ['\''])) := by
  have opens : top.step '\'' = quoted 0 '\'' false := by decide
  have hidden (separator : Char) (plain : '\'' ≠ separator) : Hidden separator top ('\'' :: (k ++ ['\''])) := by
    have within : Hidden separator (quoted 0 '\'' false) k := by
      intro a b split isTop
      obtain ⟨escaped, stays⟩ := read_quoted (fun inside => noQuote (split ▸ List.mem_append_left _ inside)) 0 false
      rw [stays] at isTop
      cases isTop
    rw [hidden_cons, opens]
    exact ⟨fun here => plain here.2, within.append (hidden_cons.mpr ⟨fun here => plain here.2, hidden_nil _ _⟩)⟩
  exact ⟨closed, hidden ',' (by decide), hidden ':' (by decide)⟩

/-- A written key is one piece with nothing to trim, and quotes are taken from it
    again. -/
theorem ReadsBack.written {k : Text} (reads : ReadsBack k) :
    Sealed (writeKey k) ∧ (writeKey k).strip = writeKey k ∧ unquote (writeKey k) = k := by
  by_cases plain : Text.isPlainKey k = true
  · have ordinary := ordinary_of_isPlainKey plain
    rw [writeKey, if_pos plain]
    exact ⟨ordinary.sealed, ordinary.strip, ordinary.unquote⟩
  · obtain ⟨noQuote, closed⟩ := reads.resolve_left plain
    rw [writeKey_of_not_plain plain, escapedKey_eq_self noQuote]
    refine ⟨sealed_quoted noQuote closed, Text.strip_eq_self ?_ ?_, ?_⟩
    · intro c first
      cases first
      decide
    · intro c last
      rw [← List.cons_append, List.getLast?_concat] at last
      cases last
      decide
    · rw [unquote, if_pos ⟨by decide, List.getLast?_concat ..⟩, List.dropLast_concat]

/-! ## Keys that are not read back -/

/-- The first part of a text begins it. -/
theorem partsAt_begins {separator : Char} (r : Reading) (t : Text) {first : Text} {others : List Text}
    (parts : partsAt separator r t = first :: others) : first <+: t := by
  induction t generalizing r first others with
  | nil =>
    cases parts
    exact List.nil_prefix
  | cons c t ih =>
    rw [partsAt] at parts
    split at parts
    · cases parts
      exact List.nil_prefix
    · cases rest : partsAt separator (r.step c) t with
      | nil => exact absurd rest (partsAt_ne_nil _ _ _)
      | cons second more =>
        rw [rest] at parts
        cases parts
        exact (List.prefix_cons_inj c).mpr (ih (r.step c) rest)

/-- A key that is found before its written form ends holds no single quote, for
    those are written with a backslash. -/
theorem notMem_of_begins {x y : Text} : ∀ {k : Text}, k ++ '\'' :: x <+: escapedKey k ++ y → '\'' ∉ k
  | [], _ => List.not_mem_nil
  | c :: k, start => by
    by_cases quote : c = '\''
    · subst quote
      rw [escapedKey_quote, List.cons_append, List.cons_append, List.cons_prefix_cons] at start
      cases start.1
    · rw [escapedKey_cons quote, List.cons_append, List.cons_append, List.prefix_cons_inj] at start
      exact List.not_mem_cons_of_ne_of_not_mem (Ne.symm quote) (notMem_of_begins start)

/-- The characters that a run of quotes and backslashes is written with. -/
def marks : List Char := ['\'', '\\']

/-- Behind marks, a written key does not begin with the key and another
    character: the marks are more and more ahead. -/
theorem not_prefix_of_marks {d : Char} (other : d ∉ marks) {x y : Text} : ∀ {k ahead : Text}, ahead ≠ [] →
    (∀ c ∈ ahead, c ∈ marks) → ¬ k ++ d :: x <+: ahead ++ (escapedKey k ++ y)
  | k, [], some_, _ => absurd rfl some_
  | [], m :: ahead, _, all => by
    rw [List.nil_append, List.cons_append, List.cons_prefix_cons]
    rintro ⟨rfl, -⟩
    exact other (all d (List.mem_cons_self ..))
  | c :: k, m :: ahead, _, all => by
    rw [List.cons_append, List.cons_append, List.cons_prefix_cons]
    rintro ⟨rfl, start⟩
    have others : ∀ e ∈ ahead, e ∈ marks := fun e inside => all e (List.mem_cons_of_mem _ inside)
    have isMark := all c (List.mem_cons_self ..)
    -- The mark `c` of the key is written behind those that are ahead, with one more if it is a quote.
    by_cases quote : c = '\''
    · subst quote
      have further : ¬ k ++ d :: x <+: (ahead ++ ['\\', '\'']) ++ (escapedKey k ++ y) :=
        not_prefix_of_marks other (by simp) (List.forall_mem_append.mpr ⟨others, by simp [marks]⟩)
      rw [escapedKey_quote] at start
      exact further (by simpa using start)
    · have further : ¬ k ++ d :: x <+: (ahead ++ [c]) ++ (escapedKey k ++ y) :=
        not_prefix_of_marks other (by simp) (List.forall_mem_append.mpr ⟨others, by simpa using isMark⟩)
      rw [escapedKey_cons quote] at start
      exact further (by simpa using start)

/-- What stands between a trimmed key and the colon behind it does not begin with
    a mark. -/
theorem exists_stop {blanks : Text} (allBlank : blanks.allBlank) :
    ∃ d x, blanks ++ [':'] = d :: x ∧ d ∉ marks := by
  cases blanks with
  | nil => exact ⟨':', [], rfl, by decide⟩
  | cons c blanks =>
    have blank : Text.isBlank c = true := List.all_eq_true.mp allBlank c (List.mem_cons_self ..)
    refine ⟨c, blanks ++ [':'], rfl, fun isMark => ?_⟩
    have solid : marks.all (fun m => !Text.isBlank m) = true := by decide
    have other := List.all_eq_true.mp solid c isMark
    rw [blank] at other
    cases other

/-- A key that is not plain is only read from the text that it is written in if
    that ends where it was written. -/
theorem readsBack_of_cut {k key rest : Text} (quoted : ¬ Text.isPlainKey k = true)
    (start : key ++ [':'] <+: writeKey k ++ ':' :: rest) (closed : Closed key) (read : unquote key.strip = k) :
    ReadsBack k := by
  have written : writeKey k ++ ':' :: rest = '\'' :: (escapedKey k ++ '\'' :: ':' :: rest) := by
    rw [writeKey_of_not_plain quoted]
    simp
  rw [written] at start
  obtain ⟨key, rfl⟩ : ∃ more, key = '\'' :: more := by
    cases key with
    | nil => simp at start
    | cons c key =>
      rw [List.cons_append, List.cons_prefix_cons] at start
      exact ⟨key, by rw [start.1]⟩
  have first : ∀ c, ('\'' :: key).head? = some c → Text.isBlank c = false := by
    intro c isFirst
    cases isFirst
    decide
  obtain ⟨blanks, allBlank, trimmed⟩ := Text.exists_stripEnd ('\'' :: key)
  have stripped : Text.strip ('\'' :: key) = Text.stripEnd ('\'' :: key) := by
    rw [Text.strip, Text.stripStart_eq_self first]
  rw [← stripped] at trimmed
  obtain ⟨d, x, behind, other⟩ := exists_stop allBlank
  cases within : Text.strip ('\'' :: key) with
  | nil =>
    rw [within, List.nil_append] at trimmed
    have blank := List.all_eq_true.mp allBlank '\'' (trimmed ▸ List.mem_cons_self ..)
    exact absurd blank (by decide)
  | cons mark inner =>
    rw [within] at trimmed read
    obtain ⟨rfl, -⟩ := List.cons.inj trimmed
    rw [trimmed, List.append_assoc, behind] at start
    rw [unquote] at read
    split at read
    · rename_i ends
      have inside : inner = k ++ ['\''] := by
        rw [← read]
        exact (List.dropLast_append_getLast? _ ends.2).symm
      rw [inside, List.cons_append, List.prefix_cons_inj, List.append_assoc, List.singleton_append] at start
      have noQuote := notMem_of_begins start
      rw [escapedKey_eq_self noQuote, List.prefix_append_right_inj, List.prefix_cons_inj] at start
      have nothing : blanks = [] := by
        cases blanks with
        | nil => rfl
        | cons c blanks =>
          rw [← behind, List.cons_append, List.cons_prefix_cons] at start
          have blank := List.all_eq_true.mp allBlank c (List.mem_cons_self ..)
          rw [start.1] at blank
          exact absurd blank (by decide)
      rw [trimmed, nothing, List.append_nil, inside] at closed
      exact .inr ⟨noQuote, closed⟩
    · have further : ¬ k ++ d :: x <+: ['\''] ++ (escapedKey k ++ '\'' :: ':' :: rest) :=
        not_prefix_of_marks other (by simp) (by simp [marks])
      rw [read] at start
      exact absurd start further

/-- A key that is the first to be read from where it was written is read back,
    whatever stands behind its colon. -/
theorem readsBack_of_split {k v rest : Text} {others : List Pair}
    (same : split (writeKey k ++ ':' :: rest) = ⟨k, some v⟩ :: others) : ReadsBack k := by
  by_cases plain : Text.isPlainKey k = true
  · exact .inl plain
  obtain ⟨more, begins⟩ : ∃ more, writeKey k ++ ':' :: rest = '\'' :: more := by
    rw [writeKey_of_not_plain plain]
    exact ⟨_, rfl⟩
  cases parts : partsAt ',' top (writeKey k ++ ':' :: rest) with
  | nil => exact absurd parts (partsAt_ne_nil _ _ _)
  | cons first units =>
    have start := partsAt_begins top _ parts
    have quoted : ∃ inner, first = '\'' :: inner := by
      rw [begins, partsAt, if_neg fun here => absurd here.2 (by decide)] at parts
      split at parts <;> cases parts <;> exact ⟨_, rfl⟩
    rw [split, parts, List.filterMap_cons] at same
    cases unit : ofUnit? first with
    | none =>
      obtain ⟨inner, rfl⟩ := quoted
      unfold ofUnit? at unit
      split at unit
      · cases unit
      · split at unit
        · rename_i blank
          have blank := Text.strip_eq_nil_iff.mp (List.isEmpty_iff.mp blank)
          exact absurd (List.all_eq_true.mp blank '\'' (List.mem_cons_self ..)) (by decide)
        · cases unit
    | some p =>
      rw [unit] at same
      cases (List.cons.inj same).1
      rcases ofUnit?_eq_some unit with ⟨key, value, cut, read⟩ | ⟨-, -, read⟩
      · have ahead : key ++ [':'] <+: first := ⟨value, by rw [cut.split]; simp⟩
        exact readsBack_of_cut plain (ahead.trans start) cut.closed (Pair.mk.inj read).1.symm
      · cases (Pair.mk.inj read).2

/-! ## Written members -/

/-- The members of an object, written between its braces. -/
def writeMembers (members : List (Text × Text)) : Text :=
  Text.join (lit ",") (members.map fun m => writeMember m.1 m.2)

theorem writeObject_eq (members : List (Text × Text)) :
    writeObject members = '\x7b' :: (writeMembers members ++ ['\x7d']) := rfl

theorem getLast?_braced (t : Text) : ('\x7b' :: (t ++ ['\x7d'])).getLast? = some '\x7d' := by
  rw [← List.cons_append, List.getLast?_concat]

/-- Braces are no blanks. -/
theorem strip_braced (t : Text) : Text.strip ('\x7b' :: (t ++ ['\x7d'])) = '\x7b' :: (t ++ ['\x7d']) := by
  refine Text.strip_eq_self ?_ ?_
  · intro c first
    cases first
    decide
  · intro c last
    rw [getLast?_braced] at last
    cases last
    decide

/-- An object literal is read as the directive string between its braces. -/
theorem ofObject_braced (t : Text) : ofObject ('\x7b' :: (t ++ ['\x7d'])) = split t := by
  rw [ofObject, strip_braced, if_pos ⟨rfl, getLast?_braced t⟩]
  simp

/-- A written object is read as its members. -/
theorem ofObject_writeObject (members : List (Text × Text)) :
    ofObject (writeObject members) = split (writeMembers members) := by
  rw [writeObject_eq, ofObject_braced]

theorem writeMembers_cons (k v : Text) (rest : List (Text × Text)) :
    ∃ more, writeMembers ((k, v) :: rest) = writeKey k ++ ':' :: more := by
  cases rest with
  | nil => exact ⟨v, by simp [writeMembers, Text.join, writeMember, lit]⟩
  | cons m rest =>
    refine ⟨v ++ lit "," ++ writeMembers (m :: rest), ?_⟩
    have joined : writeMembers ((k, v) :: m :: rest) = writeMember k v ++ lit "," ++ writeMembers (m :: rest) := rfl
    rw [joined, writeMember]
    simp [lit]

/-- A member whose key is read back is read before the others. -/
theorem split_writeMembers_cons {k v : Text} (reads : ReadsBack k) (value : Unbroken v) (rest : List (Text × Text)) :
    split (writeMembers ((k, v) :: rest)) = ⟨k, some v.strip⟩ :: split (writeMembers rest) := by
  obtain ⟨isSealed, trimmed, unquoted⟩ := reads.written
  have closed : Closed (writeMember k v) := closed_keyed isSealed.closed value.closed
  have alone : split (writeMember k v) = [⟨k, some v.strip⟩] := by
    rw [writeMember, split_keyed isSealed value.comma, trimmed, unquoted]
  cases rest with
  | nil => exact alone
  | cons m rest =>
    have joined : writeMembers ((k, v) :: m :: rest) = writeMember k v ++ lit "," ++ writeMembers (m :: rest) := rfl
    rw [joined, split_append closed, alone]
    rfl

/-- Members are read back exactly when their keys are and no value has blanks
    around it, if the values are unbroken. -/
theorem split_writeMembers_iff : ∀ {members : List (Text × Text)}, (∀ m ∈ members, Unbroken m.2) →
    (split (writeMembers members) = members.map (fun m => ⟨m.1, some m.2⟩) ↔
      ∀ m ∈ members, ReadsBack m.1 ∧ m.2.strip = m.2)
  | [], _ => ⟨fun _ m inside => (List.not_mem_nil inside).elim, fun _ => rfl⟩
  | (k, v) :: rest, values => by
    have value : Unbroken v := values (k, v) (List.mem_cons_self ..)
    have ih := split_writeMembers_iff fun m inside => values m (List.mem_cons_of_mem _ inside)
    rw [List.forall_mem_cons, ← ih, List.map_cons]
    constructor
    · intro same
      have reads : ReadsBack k := by
        obtain ⟨more, begins⟩ := writeMembers_cons k v rest
        rw [begins] at same
        exact readsBack_of_split same
      rw [split_writeMembers_cons reads value] at same
      obtain ⟨here, later⟩ := List.cons.inj same
      exact ⟨⟨reads, Option.some.inj (Pair.mk.inj here).2⟩, later⟩
    · rintro ⟨⟨reads, trimmed⟩, later⟩
      rw [split_writeMembers_cons reads value, trimmed, later]

/-- An object is read as the members that it was written from, when no key holds
    a single quote or a backslash and the values are unbroken, without blanks
    around them. Keys may hold any other character, or none, and values may be
    empty. -/
theorem members_read_back {members : List (Text × Text)} (keys : ∀ m ∈ members, '\'' ∉ m.1 ∧ '\\' ∉ m.1)
    (values : ∀ m ∈ members, Unbroken m.2 ∧ m.2.strip = m.2) :
    ofObject (writeObject members) = members.map fun m => ⟨m.1, some m.2⟩ := by
  rw [ofObject_writeObject, split_writeMembers_iff fun m inside => (values m inside).1]
  intro m inside
  obtain ⟨noQuote, noEscape⟩ := keys m inside
  exact ⟨readsBack_of_noEscape noQuote noEscape, (values m inside).2⟩

/-- Members with separators, braces and a line feed in their keys, an empty key
    and an empty value, a value with a stray bracket, and plain keys. -/
def punctuated : List (Text × Text) :=
  [(lit "a: \x7b\"b\", c\x7d\n", lit "f(x, ':')"), ([], lit "y\x7d"), (lit " \x60", []), (lit "$x1", lit "a ? b : c")]

theorem members_read_back_punctuated :
    (∀ m ∈ punctuated, '\'' ∉ m.1 ∧ '\\' ∉ m.1) ∧ (∀ m ∈ punctuated, Unbroken m.2 ∧ m.2.strip = m.2) ∧
      writeObject punctuated =
        lit "\x7b'a: \x7b\"b\", c\x7d\n':f(x, ':'),'':y\x7d,' \x60':,$x1:a ? b : c\x7d" ∧
      ofObject (writeObject punctuated) =
        [⟨lit "a: \x7b\"b\", c\x7d\n", some (lit "f(x, ':')")⟩, ⟨[], some (lit "y\x7d")⟩, ⟨lit " \x60", some []⟩,
          ⟨lit "$x1", some (lit "a ? b : c")⟩] := by
  have keys : ∀ m ∈ punctuated, '\'' ∉ m.1 ∧ '\\' ∉ m.1 := by decide
  have read : ∀ m ∈ punctuated, Closed m.2 ∧ Hidden ',' top m.2 ∧ m.2.strip = m.2 := by decide
  have values : ∀ m ∈ punctuated, Unbroken m.2 ∧ m.2.strip = m.2 := fun m inside =>
    ⟨⟨(read m inside).1, (read m inside).2.1⟩, (read m inside).2.2⟩
  exact ⟨keys, values, by decide +kernel, members_read_back keys values⟩

end Pair

namespace Directive
open Pair

variable {P : State → Prop} {add : Adder} {answer : Text → Text → Datum}

/-! ## Preprocessed properties -/

/-- Values that are read are trimmed. -/
theorem strip_value_of_mem_split {t v : Text} {p : Pair} (inside : p ∈ split t) (value : p.value = some v) :
    v.strip = v := by
  obtain ⟨unit, -, read⟩ := List.mem_filterMap.mp inside
  rcases ofUnit?_eq_some read with ⟨key, text, -, rfl⟩ | ⟨-, -, rfl⟩
  · cases value
    exact Text.strip_strip text
  · cases value

theorem strip_value_of_mem_ofObject {t v : Text} {p : Pair} (inside : p ∈ ofObject t) (value : p.value = some v) :
    v.strip = v := by
  unfold ofObject at inside
  dsimp only at inside
  split at inside <;> exact strip_value_of_mem_split inside value

/-- The functions of a handler answer with unbroken texts for the properties of
    an object, where they leave anything of them. -/
def AnswersUnbroken (h : Handler) (answer : Text → Text → Datum) (t : Text) : Prop :=
  ∀ p ∈ ofObject t, ∀ pipeline v, (h.properties.getD .empty).get? p.key = some pipeline → p.value = some v →
    (answer p.key v).truthy = true → ∃ w, answer p.key v = .text w ∧ Unbroken w

theorem unbroken_of_mem_keptOf {h : Handler} {t k v : Text}
    (values : ∀ p ∈ ofObject t, ∀ v, p.value = some v → Unbroken v) (texts : AnswersUnbroken h answer t)
    (inside : (k, v) ∈ keptOf h answer t) : Unbroken v := by
  obtain ⟨p, listed, -, truthy, shown⟩ := mem_keptOf.mp inside
  unfold answered at truthy shown
  split at truthy
  · rename_i pipeline w found value
    obtain ⟨x, same, unbroken⟩ := texts p listed pipeline w found value truthy
    simp only [found, value, same, Datum.display] at shown
    exact shown ▸ unbroken
  · rename_i other
    cases value : p.value with
    | none =>
      rw [value] at truthy
      cases truthy
    | some w =>
      have untouched : (h.properties.getD .empty).get? p.key = none := by
        cases found : (h.properties.getD .empty).get? p.key with
        | none => rfl
        | some pipeline => exact (other pipeline w found value).elim
      simp only [untouched, value, Datum.ofText?, Datum.display] at shown
      exact shown ▸ values p listed w value

/-- An object gives way to what is left of its properties, in order: what has a
    function has its answer, what has none and is not empty is as it was, and what
    is bare, empty or falsy is gone. This is read back from the written object
    exactly when no key that is not plain holds a single quote or leaves the quotes
    around it open, and when no answer has blanks around it. -/
theorem properties_read_back_iff {h : Handler} {t : Text} (isObject : Pair.isObject t = true)
    (values : ∀ p ∈ ofObject t, ∀ v, p.value = some v → Unbroken v)
    (answers : Answers P add (h.properties.getD .empty) answer (ofObject t)) (texts : AnswersUnbroken h answer t) :
    (∀ carried, Gives P ((preprocessProperties add h t).run carried) fun result =>
      result.1 = writeObject (keptOf h answer t)) ∧
    (∀ p ∈ ofObject t, (h.properties.getD .empty).get? p.key = none → ∀ v, p.value = some v → v ≠ [] →
      (p.key, v) ∈ keptOf h answer t ∧ v.strip = v) ∧
    (ofObject (writeObject (keptOf h answer t)) = (keptOf h answer t).map (fun m => ⟨m.1, some m.2⟩) ↔
      ∀ m ∈ keptOf h answer t, ReadsBack m.1 ∧ m.2.strip = m.2) := by
  refine ⟨preprocessProperties_gives_kept isObject answers, ?_, ?_⟩
  · intro p inside untouched v value some_
    refine ⟨mem_keptOf.mpr ⟨p, inside, rfl, ?_⟩, strip_value_of_mem_ofObject inside value⟩
    simp [answered, untouched, value, Datum.ofText?, Datum.truthy, Datum.display, some_]
  · rw [ofObject_writeObject]
    exact split_writeMembers_iff fun m inside => unbroken_of_mem_keptOf values texts inside

/-- An object with an escaped quote in one of its keys. -/
def possessive : Text := lit "\x7b'it\\'s': v, ok: w\x7d"

/-- What is left of it when the other property is replaced. -/
def possessiveKept : List (Text × Text) := [(lit "it\\'s", lit "v"), (lit "ok", lit "f(w)")]

theorem properties_read_back_iff_possessive :
    ofObject possessive = [⟨lit "it\\'s", some (lit "v")⟩, ⟨lit "ok", some (lit "w")⟩] ∧
      (∀ add carried, Gives (fun _ => True)
        ((preprocessProperties add (replacing (lit "ok") (lit "f(w)")) possessive).run carried)
        fun result => result.1 = lit "\x7b'it\\\\'s':v,ok:f(w)\x7d") ∧
      ofObject (writeObject possessiveKept) ≠ possessiveKept.map fun m => ⟨m.1, some m.2⟩ := by
  have pairs : ofObject possessive = [⟨lit "it\\'s", some (lit "v")⟩, ⟨lit "ok", some (lit "w")⟩] := by decide
  have left : keptOf (replacing (lit "ok") (lit "f(w)")) (fun _ _ => .text (lit "f(w)")) possessive =
      possessiveKept := by
    rw [keptOf, pairs]
    rfl
  have values : ∀ p ∈ ofObject possessive, ∀ v, p.value = some v → Unbroken v := by
    have known : ∀ p ∈ ofObject possessive, ∀ v, p.value = some v → v = lit "v" ∨ v = lit "w" := by simp [pairs]
    intro p inside v value
    rcases known p inside v value with rfl | rfl
    · exact ⟨by decide, by decide⟩
    · exact ⟨by decide, by decide⟩
  have texts : AnswersUnbroken (replacing (lit "ok") (lit "f(w)")) (fun _ _ => .text (lit "f(w)")) possessive :=
    fun _ _ _ _ _ _ _ => ⟨lit "f(w)", rfl, by decide, by decide⟩
  have written : writeObject possessiveKept = lit "\x7b'it\\\\'s':v,ok:f(w)\x7d" := by decide +kernel
  have answers (add : Adder) : Answers (fun _ => True) add ((replacing (lit "ok") (lit "f(w)")).properties.getD .empty)
      (fun _ _ => .text (lit "f(w)")) (ofObject possessive) := replacing_answers (lit "ok") (lit "f(w)") _
  have reads (add : Adder) := properties_read_back_iff (by decide) values (answers add) texts
  rw [left, written] at reads
  refine ⟨pairs, fun add => (reads add).1, fun same => ?_⟩
  rw [written] at same
  have back := (((reads fun _ => pure []).2.2.mp same) (lit "it\\'s", lit "v") (by decide)).1
  rcases back with plain | ⟨noQuote, -⟩
  · exact absurd plain (by decide)
  · exact noQuote (by decide)

end Directive
end Bindmark
