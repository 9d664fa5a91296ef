import Bindmark.Proofs.Occurrence
import Bindmark.Reference

/-!
# References

Which values refer to a function (`Refers`), however such a value is cut into its
parts: an identifier, or some text on one line with a property or an index behind
it. No reference ends as a wrapped one does, so a callback is wrapped once.
-/

namespace Bindmark

namespace Text

/-! ## Identifiers -/

/-- Characters that no identifier holds: blanks, and the marks between the parts of
    an expression. -/
def breaks : List Char := blanks ++ lit ".,:;|\"'()[]\x7b\x7d"

theorem notMem_breaks {c : Char} (part : isIdentifierPart c = true) : c ∉ breaks := by
  have none : breaks.all (fun c => !isIdentifierPart c) = true := by decide +kernel
  intro inside
  have other := List.all_eq_true.mp none c inside
  rw [part] at other
  cases other

theorem not_isBlank_of_isIdentifierPart {c : Char} (part : isIdentifierPart c = true) : isBlank c = false := by
  have other := notMem_breaks part
  rw [breaks, List.mem_append, not_or] at other
  simpa [isBlank] using other.1

theorem isIdentifierPart_of_isIdentifierStart {c : Char} (start : isIdentifierStart c = true) :
    isIdentifierPart c = true := by
  have folding : foldingLetters.all isIdentifierPart = true := by decide +kernel
  simp only [isIdentifierStart, Bool.or_eq_true, beq_iff_eq, List.contains_iff_mem] at start
  rcases start with ((rfl | rfl) | letter) | folded
  · decide
  · decide
  · simp [isIdentifierPart, isWord, isAlphanumeric, Char.isAlphanum, letter]
  · exact List.all_eq_true.mp folding c folded

/-- An identifier is not empty, and is made of identifier characters. -/
theorem parts_of_isIdentifier {t : Text} (identifier : isIdentifier t = true) :
    t ≠ [] ∧ ∀ c ∈ t, isIdentifierPart c = true := by
  cases t with
  | nil => cases identifier
  | cons c rest =>
    rw [isIdentifier, Bool.and_eq_true] at identifier
    refine ⟨List.cons_ne_nil c rest, List.forall_mem_cons.mpr ⟨?_, List.all_eq_true.mp identifier.2⟩⟩
    exact isIdentifierPart_of_isIdentifierStart identifier.1

end Text

namespace Reference

open Text

/-! ## What refers -/

/-- A text that is not empty and stands on one line. -/
structure OnLine (t : Text) : Prop where
  some_ : t ≠ []
  unbroken : '\n' ∉ t

theorem isLine_iff {t : Text} : isLine t = true ↔ OnLine t := by
  rw [isLine, Bool.and_eq_true, Bool.not_eq_true', Bool.not_eq_true', List.isEmpty_eq_false_iff,
    ← Bool.not_eq_true, List.contains_iff_mem]
  exact ⟨fun ⟨some_, unbroken⟩ => ⟨some_, unbroken⟩, fun ⟨some_, unbroken⟩ => ⟨some_, unbroken⟩⟩

/-- A value that refers to a function: an identifier, or what it belongs to on one
    line, and then a dot and an identifier with any blanks between them, or an index
    on one line in brackets. -/
inductive Refers : Text → Prop
  | identifier {name : Text} (isName : isIdentifier name = true) : Refers name
  | property {receiver gap name : Text} (line : OnLine receiver) (blank : allBlank gap = true)
      (isName : isIdentifier name = true) : Refers (receiver ++ '.' :: (gap ++ name))
  | index {receiver inner : Text} (line : OnLine receiver) (inside : OnLine inner) :
      Refers (receiver ++ '[' :: (inner ++ [']']))

theorem stripStart_of_isIdentifier {gap name : Text} (blank : allBlank gap = true) (isName : isIdentifier name = true) :
    stripStart (gap ++ name) = name := by
  obtain ⟨some_, parts⟩ := parts_of_isIdentifier isName
  obtain ⟨c, rest, rfl⟩ := List.exists_cons_of_ne_nil some_
  have solid := not_isBlank_of_isIdentifierPart (parts c (List.mem_cons_self ..))
  rw [stripStart, List.dropWhile_append_of_pos (List.all_eq_true.mp blank),
    List.dropWhile_cons_of_neg (by rw [solid]; exact Bool.false_ne_true)]

/-- The dot before a property is the last one, as neither blanks nor an identifier
    hold a dot. -/
theorem endsInProperty_iff {t : Text} : endsInProperty t = true ↔
    ∃ receiver gap name, t = receiver ++ '.' :: (gap ++ name) ∧ OnLine receiver ∧ allBlank gap = true ∧
      isIdentifier name = true := by
  constructor
  · intro ends
    unfold endsInProperty at ends
    split at ends
    · cases ends
    · rename_i i found
      obtain ⟨⟨receiver, after, rfl, rfl⟩, -⟩ := lastIndexOf?_eq_some found
      rw [Bool.and_eq_true, isLine_iff, List.append_assoc, List.take_left, List.drop_append] at ends
      simp only [List.singleton_append, Nat.add_sub_cancel_left, List.drop_succ_cons, List.drop_zero,
        List.drop_eq_nil_of_le (Nat.le_succ _), List.nil_append] at ends
      refine ⟨receiver, after.takeWhile isBlank, stripStart after, ?_, ends.1, List.all_takeWhile, ends.2⟩
      rw [stripStart, List.takeWhile_append_dropWhile, List.append_assoc, List.singleton_append]
  · rintro ⟨receiver, gap, name, rfl, line, blank, isName⟩
    have noDot : '.' ∉ gap ++ name := by
      intro inside
      rcases List.mem_append.mp inside with inside | inside
      · exact absurd (List.all_eq_true.mp blank _ inside) (by decide)
      · exact absurd ((parts_of_isIdentifier isName).2 _ inside) (by decide)
    unfold endsInProperty
    rw [lastIndexOf?_append_cons noDot]
    simp [isLine_iff.mpr line, stripStart_of_isIdentifier blank isName, isName]

theorem exists_concat {t : Text} (some_ : t ≠ []) : ∃ front c, t = front ++ [c] :=
  ⟨_, _, (List.dropLast_concat_getLast some_).symm⟩

theorem endsInIndex_iff {t : Text} : endsInIndex t = true ↔
    ∃ receiver inner, t = receiver ++ '[' :: (inner ++ [']']) ∧ OnLine receiver ∧ OnLine inner := by
  rw [endsInIndex, Bool.and_eq_true, Bool.and_eq_true, isLine_iff, beq_iff_eq, List.contains_iff_mem]
  constructor
  · rintro ⟨⟨⟨some_, unbroken⟩, last⟩, bracket⟩
    -- One character stands before the bracket, and one between it and the last.
    obtain ⟨c, rest, rfl⟩ := List.exists_cons_of_ne_nil some_
    rw [List.drop_one, List.tail_cons] at bracket
    obtain ⟨front, d, rfl⟩ := exists_concat (t := rest) (by rintro rfl; cases bracket)
    rw [← List.cons_append, List.getLast?_concat] at last
    obtain rfl : d = ']' := Option.some.inj last
    rw [List.dropLast_concat] at bracket
    obtain ⟨front, e, rfl⟩ := exists_concat (t := front) (by rintro rfl; cases bracket)
    rw [List.dropLast_concat] at bracket
    obtain ⟨before, after, rfl⟩ := List.append_of_mem bracket
    refine ⟨c :: before, after ++ [e], by simp, ⟨List.cons_ne_nil _ _, fun inside => unbroken ?_⟩,
      ⟨by simp, fun inside => unbroken ?_⟩⟩
    · simp only [List.mem_cons, List.mem_append] at inside ⊢
      tauto
    · simp only [List.mem_cons, List.mem_append, List.not_mem_nil, or_false] at inside ⊢
      tauto
  · rintro ⟨receiver, inner, rfl, ⟨some_, unbroken⟩, ⟨some_', unbroken'⟩⟩
    obtain ⟨c, rest, rfl⟩ := List.exists_cons_of_ne_nil some_
    obtain ⟨front, d, rfl⟩ := exists_concat some_'
    have whole : c :: rest ++ '[' :: (front ++ [d] ++ [']']) = c :: (rest ++ '[' :: front ++ [d] ++ [']']) := by simp
    refine ⟨⟨⟨by simp, ?_⟩, ?_⟩, ?_⟩
    · simp only [List.mem_cons, List.mem_append, List.not_mem_nil, or_false, not_or] at unbroken unbroken' ⊢
      exact ⟨unbroken, by decide, unbroken', by decide⟩
    · rw [whole, ← List.cons_append, List.getLast?_concat]
    · rw [whole, List.drop_one, List.tail_cons, List.dropLast_concat, List.dropLast_concat]
      simp

theorem isReference_iff {t : Text} : isReference t = true ↔ Refers t := by
  rw [isReference, Bool.or_eq_true, Bool.or_eq_true, endsInProperty_iff, endsInIndex_iff]
  constructor
  · rintro ((isName | ⟨receiver, gap, name, rfl, line, blank, isName⟩) | ⟨receiver, inner, rfl, line, inside⟩)
    · exact .identifier isName
    · exact .property line blank isName
    · exact .index line inside
  · rintro (isName | ⟨line, blank, isName⟩ | ⟨line, inside⟩)
    · exact .inl (.inl isName)
    · exact .inl (.inr ⟨_, _, _, rfl, line, blank, isName⟩)
    · exact .inr ⟨_, _, rfl, line, inside⟩

/-! ## Wrapping -/

/-- The marks that a call, a function and a statement end in. -/
def endings : Text := lit ")\x7d;"

theorem last_of_isIdentifier {t name : Text} (isName : isIdentifier name = true) :
    ∃ c, (t ++ name).getLast? = some c ∧ isIdentifierPart c = true := by
  obtain ⟨some_, parts⟩ := parts_of_isIdentifier isName
  refine ⟨name.getLast some_, ?_, parts _ (List.getLast_mem some_)⟩
  rw [List.getLast?_append, List.getLast?_eq_some_getLast some_]
  rfl

/-- A reference ends in an identifier or in a bracket. -/
theorem Refers.last {t : Text} (refers : Refers t) {c : Char} (last : t.getLast? = some c) : c ∉ endings := by
  have closing : (endings.all fun c => !isIdentifierPart c) = true := by decide +kernel
  have other (part : isIdentifierPart c = true) : c ∉ endings := by
    intro inside
    have closes := List.all_eq_true.mp closing c inside
    rw [part] at closes
    cases closes
  cases refers with
  | identifier isName =>
    obtain ⟨d, ends, part⟩ := last_of_isIdentifier (t := []) isName
    obtain rfl : d = c := Option.some.inj (ends.symm.trans last)
    exact other part
  | @property receiver gap name _ _ isName =>
    obtain ⟨d, ends, part⟩ := last_of_isIdentifier (t := receiver ++ '.' :: gap) isName
    rw [List.append_assoc, List.cons_append] at ends
    obtain rfl : d = c := Option.some.inj (ends.symm.trans last)
    exact other part
  | @index receiver inner _ _ =>
    rw [← List.cons_append, ← List.append_assoc, List.getLast?_concat] at last
    obtain rfl : ']' = c := Option.some.inj last
    decide

theorem wrap_of_not_refers {t : Text} (none_ : ¬ Refers t) : wrap t = t := by
  rw [wrap, if_neg (mt isReference_iff.mp none_)]

theorem wrap_of_refers {t : Text} (refers : Refers t) : wrap t = wrapped t := by
  rw [wrap, if_pos (isReference_iff.mpr refers)]

theorem wrapped_ne_self (t : Text) : wrapped t ≠ t := by
  have opening : 0 < (lit "function(_x,_y,_z)\x7breturn(").length := by decide +kernel
  intro same
  unfold wrapped at same
  have lengths := congrArg List.length same
  rw [List.length_append, List.length_append] at lengths
  omega

/-- A function around a reference is none. -/
theorem not_refers_wrapped (t : Text) : ¬ Refers (wrapped t) := by
  have closing : lit ")(_x,_y,_z);\x7d" = lit ")(_x,_y,_z);" ++ ['\x7d'] := by decide +kernel
  have last : (wrapped t).getLast? = some '\x7d' := by
    unfold wrapped
    rw [closing, ← List.append_assoc]
    exact List.getLast?_concat
  exact fun refers => refers.last last (by decide)

/-- A callback is wrapped once. -/
theorem wrap_wrap (t : Text) : wrap (wrap t) = wrap t := by
  by_cases refers : Refers t
  · rw [wrap_of_refers refers, wrap_of_not_refers (not_refers_wrapped t)]
  · rw [wrap_of_not_refers refers, wrap_of_not_refers refers]

/-- Values that refer to a function are wrapped, and no others. What is wrapped is not
    wrapped again, and what ends as a call, a function or a statement stays as it is. -/
theorem wrap_exactly_references (t : Text) :
    (wrap t = wrapped t ↔ Refers t) ∧ (¬ Refers t → wrap t = t) ∧ wrap (wrap t) = wrap t ∧
      ∀ c ∈ endings, t.getLast? = some c → wrap t = t := by
  refine ⟨⟨fun same => ?_, wrap_of_refers⟩, wrap_of_not_refers, wrap_wrap t, fun c ending last => ?_⟩
  · by_contra none_
    rw [wrap_of_not_refers none_] at same
    exact wrapped_ne_self t same.symm
  · exact wrap_of_not_refers fun refers => refers.last last ending

/-- A property on a line of its own, of what stands in an index. -/
def chained : Text := lit "rows[i + 1].\n  save"

theorem wrap_exactly_references_chained :
    wrap chained = wrapped chained ∧ wrap (wrapped chained) = wrapped chained ∧
      ¬ Refers (lit "rows\n[0]") ∧ wrap (lit "rows\n[0]") = lit "rows\n[0]" ∧ wrap (lit "save()") = lit "save()" := by
  have line : OnLine (lit "rows[i + 1]") := ⟨by decide, by decide⟩
  have blank : allBlank (lit "\n  ") = true := by decide
  have refers : Refers chained := .property line blank (by decide : isIdentifier (lit "save") = true)
  have wraps := (wrap_exactly_references chained).1.mpr refers
  have broken : ¬ Refers (lit "rows\n[0]") := fun refers => absurd (isReference_iff.mpr refers) (by decide +kernel)
  refine ⟨wraps, ?_, broken, (wrap_exactly_references _).2.1 broken, ?_⟩
  · rw [← wraps]
    exact (wrap_exactly_references chained).2.2.1
  · exact (wrap_exactly_references (lit "save()")).2.2.2 ')' (by decide) rfl

end Reference
end Bindmark
