import Bindmark.Proofs.Depths
import Bindmark.Proofs.Expanding
import Bindmark.Proofs.WrittenObjects

/-!
# Two spellings of a map

A directive that splits objects may be spelled as an object, or as one directive
for each of its members. An object is read as its members, and the directives that
it is split into are just those of the other spelling, in the same place. So both
spellings come to the same, or are given up with the same fault. Only the members
of an object are added one level deeper, which matters where all levels are used
up.
-/

namespace Bindmark

open Reading Work

namespace Pair

/-! ## Spelled directives -/

/-- A directive with a blank behind its colon. -/
def spell (p : Pair) : Text :=
  match p.value with
  | none => p.key
  | some v => p.key ++ lit ": " ++ v

/-- Directives with a comma and a blank between each two of them. -/
def spellAll (ps : List Pair) : Text := Text.join (lit ", ") (ps.map spell)

/-- A directive without blanks around its value. -/
def trimmed (p : Pair) : Pair := { p with value := p.value.map Text.strip }

/-- A directive that can be spelled: its key has no quotes, brackets, commas and
    colons and no blanks around it, and the brackets of its value match, with no
    comma that counts. -/
structure Spellable (p : Pair) : Prop where
  some_ : p.key ≠ []
  plain : ∀ c ∈ p.key, c ∉ quotes ++ openers ++ closers ++ [',', ':']
  stripped : p.key.strip = p.key
  balanced : ∀ v, p.value = some v → Balanced v
  single : ∀ v, p.value = some v → ¬ TopLevel ',' v

/-! ## Blanks before a directive -/

theorem step_blank {c : Char} (blank : Text.isBlank c = true) : top.step c = top ∧ c ≠ ',' ∧ c ≠ ':' := by
  have all : Text.blanks.all (fun c => top.step c = top ∧ c ≠ ',' ∧ c ≠ ':') = true := by decide
  exact of_decide_eq_true (List.all_eq_true.mp all c (by simpa [Text.isBlank] using blank))

theorem ofUnit?_cons_blank {c : Char} (blank : Text.isBlank c = true) (u : Text) : ofUnit? (c :: u) = ofUnit? u := by
  obtain ⟨stays, -, other⟩ := step_blank blank
  have alone : Text.allBlank [c] = true := by simpa [Text.allBlank] using blank
  have trimmed (t : Text) : Text.strip (c :: t) = t.strip := Text.strip_append_of_allBlank alone
  rw [ofUnit?, cutAt?, if_neg fun here => other here.2, stays, ofUnit?]
  cases cutAt? ':' top u with
  | none => simp only [Option.map_none, trimmed]
  | some parts => simp only [Option.map_some, trimmed]

/-- A blank at the start makes no difference to what is read. -/
theorem split_cons_blank {c : Char} (blank : Text.isBlank c = true) (t : Text) : split (c :: t) = split t := by
  obtain ⟨stays, other, -⟩ := step_blank blank
  rw [split, partsAt, if_neg fun here => other here.2, stays, split]
  cases parts : partsAt ',' top t with
  | nil => exact absurd parts (partsAt_ne_nil _ _ _)
  | cons first others => simp only [List.filterMap_cons, ofUnit?_cons_blank blank]

/-- A closed text before a comma and a blank is split on its own. -/
theorem split_append_spaced {a : Text} (closed : Closed a) (b : Text) :
    split (a ++ lit ", " ++ b) = split a ++ split b := by
  have spaced : a ++ lit ", " ++ b = a ++ lit "," ++ ' ' :: b := by simp [lit]
  rw [spaced, split_append closed, split_cons_blank (by decide)]

theorem split_between {a b : Text} (closed : Closed a) (closed' : Closed b) (c : Text) :
    split (a ++ lit ", " ++ b ++ lit ", " ++ c) = split a ++ (split b ++ split c) := by
  have nested : a ++ lit ", " ++ b ++ lit ", " ++ c = a ++ lit ", " ++ (b ++ lit ", " ++ c) := by
    simp only [List.append_assoc]
  rw [nested, split_append_spaced closed, split_append_spaced closed']

/-! ## Reading spelled directives -/

theorem balanced_of_plain {t : Text} (plain : ∀ c ∈ t, c ∉ quotes ++ openers ++ closers ++ [',', ':']) :
    Balanced t where
  closed := (sealed_of_plain plain).closed
  matched := by
    intro a c b split closer
    have inside : c ∈ t := by
      rw [split]
      simp
    have listed : c ∈ quotes ++ openers ++ closers ++ [',', ':'] := by simp [closer]
    exact absurd listed (plain c inside)

namespace Spellable

variable {p : Pair}

theorem balanced_spell (spellable : Spellable p) : Balanced (spell p) := by
  have key := balanced_of_plain spellable.plain
  unfold spell
  cases value : p.value with
  | none => exact key
  | some v =>
    have colon : Balanced (lit ": ") := by decide
    exact (key.append colon).append (spellable.balanced v value)

theorem split_spell (spellable : Spellable p) : split (spell p) = [trimmed p] := by
  have key := sealed_of_plain spellable.plain
  have bare : unquote p.key = p.key := by
    refine unquote_of_head fun c first quote => ?_
    exact spellable.plain c (List.mem_of_head? first) (by simp [quote])
  unfold spell trimmed
  cases value : p.value with
  | none =>
    have solid : ¬ p.key.allBlank := by
      rw [← Text.strip_eq_nil_iff, spellable.stripped]
      exact spellable.some_
    have unit := (split_unit (hidden_top_iff.mp key.comma)).2.1 solid (hidden_top_iff.mp key.colon)
    rw [unit, spellable.stripped, bare]
    rfl
  | some v =>
    have hidden : Hidden ',' top (' ' :: v) := by
      refine hidden_cons.mpr ⟨fun here => absurd here.2 (by decide), ?_⟩
      exact hidden_top_iff.mpr (spellable.single v value)
    have spelled : p.key ++ lit ": " ++ v = p.key ++ lit ":" ++ ' ' :: v := by simp [lit]
    have stripped : Text.strip (' ' :: v) = v.strip := Text.strip_append_of_allBlank (b := [' ']) (by decide)
    have unit := split_keyed key hidden
    rw [spellable.stripped, bare, stripped] at unit
    dsimp only
    rw [spelled, unit]
    rfl

/-- With an ordinary name before its key, a directive can be spelled as well. -/
theorem prepend (spellable : Spellable p) {name : Text} (ordinary : Ordinary name) (some_ : name ≠ []) :
    Spellable { p with key := name ++ p.key } where
  some_ := by simp [some_]
  plain := by
    intro c inside
    rcases List.mem_append.mp inside with named | keyed
    · exact ordinary.plain c named
    · exact spellable.plain c keyed
  stripped := by
    refine Text.strip_eq_self ?_ ?_
    · intro c first
      obtain ⟨d, name, rfl⟩ := List.exists_cons_of_ne_nil some_
      cases first
      exact ordinary.noBlank (List.mem_cons_self ..)
    · intro c last
      change (name ++ p.key).getLast? = some c at last
      rw [List.getLast?_append_of_ne_nil _ spellable.some_, ← spellable.stripped] at last
      exact Text.not_isBlank_ends_strip (.inr last)
  balanced := spellable.balanced
  single := spellable.single

end Spellable

theorem spellAll_cons_cons (p q : Pair) (rest : List Pair) :
    spellAll (p :: q :: rest) = spell p ++ lit ", " ++ spellAll (q :: rest) := rfl

theorem balanced_spellAll : ∀ {ps : List Pair}, (∀ p ∈ ps, Spellable p) → Balanced (spellAll ps)
  | [], _ => by decide
  | [p], all => (all p (List.mem_singleton_self p)).balanced_spell
  | p :: q :: rest, all => by
    have comma : Balanced (lit ", ") := by decide
    have first := (all p (List.mem_cons_self ..)).balanced_spell
    have others := balanced_spellAll fun r inside => all r (List.mem_cons_of_mem _ inside)
    rw [spellAll_cons_cons]
    exact (first.append comma).append others

/-- Spelled directives are read, without the blanks around their values. -/
theorem split_spellAll : ∀ {ps : List Pair}, (∀ p ∈ ps, Spellable p) → split (spellAll ps) = ps.map trimmed
  | [], _ => by decide
  | [p], all => (all p (List.mem_singleton_self p)).split_spell
  | p :: q :: rest, all => by
    have first := all p (List.mem_cons_self ..)
    have others := split_spellAll fun r inside => all r (List.mem_cons_of_mem _ inside)
    rw [spellAll_cons_cons, split_append_spaced first.balanced_spell.closed, first.split_spell, others]
    rfl

/-! ## Both spellings -/

/-- Members between braces. -/
def objectOf (members : List Pair) : Text := '\x7b' :: (spellAll members ++ ['\x7d'])

/-- A map between other directives, spelled as an object under its key. -/
def spelledAsObject (before key : Text) (members : List Pair) (after : Text) : Text :=
  before ++ lit ", " ++ spell ⟨key, some (objectOf members)⟩ ++ lit ", " ++ after

/-- A map between other directives, spelled as one directive for each member. -/
def spelledApart (before key divider : Text) (members : List Pair) (after : Text) : Text :=
  before ++ lit ", " ++ spellAll (members.map fun m => { m with key := key ++ divider ++ m.key }) ++ lit ", " ++ after

section
variable {members : List Pair} (spellable : ∀ m ∈ members, Spellable m) {before key divider : Text}
  (closed : Closed before) (ordinary : Ordinary key) (some_ : key ≠ []) (after : Text)
include spellable

theorem spellable_objectOf (ordinary : Ordinary key) (some_ : key ≠ []) :
    Spellable ⟨key, some (objectOf members)⟩ := by
  have inside := balanced_spellAll spellable
  have isSealed : Sealed (objectOf members) := by
    have opener : '\x7b' ∈ openers := by decide
    have closer : '\x7d' ∈ closers := by decide
    simpa [objectOf] using sealed_nil.enclose inside opener closer
  refine ⟨some_, ordinary.plain, ordinary.strip, ?_, ?_⟩
  · intro v value
    cases value
    have opens : Leads 0 ['\x7b'] 1 := ⟨by decide, by decide⟩
    have closes : Leads 1 ['\x7d'] 0 := ⟨by decide, by decide⟩
    have within : Leads 1 (spellAll members) 1 := by simpa using (balanced_iff_leads.mp inside).raise 1
    exact balanced_iff_leads.mpr (opens.append (within.append closes))
  · intro v value
    cases value
    exact hidden_top_iff.mp isSealed.comma

/-- An object is read as its members. -/
theorem ofObject_objectOf : ofObject (objectOf members) = members.map trimmed := by
  rw [objectOf, ofObject_braced, split_spellAll spellable]

include closed ordinary some_

theorem split_spelledAsObject : split (spelledAsObject before key members after) =
    split before ++ ([⟨key, some (objectOf members)⟩] ++ split after) := by
  have object := spellable_objectOf spellable ordinary some_
  have unit := object.split_spell
  rw [trimmed, Option.map_some, objectOf, strip_braced, ← objectOf] at unit
  rw [spelledAsObject, split_between closed object.balanced_spell.closed, unit]

/-- The directives for the members are just those that the object is split into. -/
theorem split_spelledApart (divided : Ordinary divider) : split (spelledApart before key divider members after) =
    split before ++ (Directive.memberPairs divider key (objectOf members) ++ split after) := by
  have each : ∀ p ∈ members.map fun m => { m with key := key ++ divider ++ m.key }, Spellable p := by
    intro p inside
    obtain ⟨m, listed, rfl⟩ := List.mem_map.mp inside
    exact (spellable m listed).prepend (ordinary.append divided) (by simp [some_])
  have same : Directive.memberPairs divider key (objectOf members) =
      (members.map fun m => { m with key := key ++ divider ++ m.key }).map trimmed := by
    rw [Directive.memberPairs, ofObject_objectOf spellable, List.map_map, List.map_map]
    rfl
  rw [spelledApart, split_between closed (balanced_spellAll each).closed, split_spellAll each, same]

end

end Pair

/-! ## Runs of both spellings -/

namespace Work

variable {α β : Type} {start : Registry}

/-- On one registry, one piece of work is given up as too deep, or another one ends
    in the same way. -/
def AlikeUnlessDeep (start : Registry) (w w' : Work α) : Prop :=
  ∀ st st', Twins start st st' → (∃ t, w st = .error .tooDeep t) ∨ Agree (Twins start) Eq (w st) (w' st')

theorem agree_of_ok {S : State → State → Prop} {ran ran' : EStateM.Result Fault State α} {a : α} {t : State}
    (agrees : (∃ t, ran = .error .tooDeep t) ∨ Agree S Eq ran ran') (is : ran = .ok a t) :
    ∃ t', ran' = .ok a t' ∧ S t t' := by
  rcases agrees with ⟨_, deep⟩ | agree
  · cases is.symm.trans deep
  · obtain ⟨_, t', other, rfl, states⟩ := agree.of_ok is
    exact ⟨t', other, states⟩

namespace AlikeUnlessDeep

theorem of_deepens {w w' : Work α} (deepens : Deepens w w') (repeats : Repeats (Twins start) w') :
    AlikeUnlessDeep start w w' := by
  intro st st' twins
  rcases deepens st with deep | same
  · exact .inl deep
  · rw [← same]
    exact .inr (repeats st st' twins)

theorem of_repeats {w : Work α} (repeats : Repeats (Twins start) w) : AlikeUnlessDeep start w w :=
  of_deepens (.refl w) repeats

theorem bind {w w' : Work α} {next next' : α → Work β} (first : AlikeUnlessDeep start w w')
    (rest : ∀ a, AlikeUnlessDeep start (next a) (next' a)) : AlikeUnlessDeep start (w >>= next) (w' >>= next') := by
  intro st st' twins
  rcases first st st' twins with ⟨t, deep⟩ | agree
  · exact .inl ⟨t, bind_error deep⟩
  · rw [bind_apply, bind_apply]
    cases one : w st with
    | ok a t =>
      obtain ⟨_, t', two, rfl, twins'⟩ := agree.of_ok one
      rw [two]
      exact rest a t t' twins'
    | error e t =>
      obtain ⟨t', two, twins'⟩ := agree.of_error one
      rw [two]
      exact .inr ⟨rfl, twins'⟩

/-- Work after which something is logged on the one side. -/
theorem log_left {w w' : Work α} (alike : AlikeUnlessDeep start w w') (e : Event) : AlikeUnlessDeep start (do
    let a ← w
    Work.log e
    return a : Work α) w' := by
  rw [← bind_pure w']
  refine alike.bind fun a => ?_
  intro st st' twins
  exact .inr ⟨rfl, twins.same, twins.persists⟩

/-- Work after which something is logged on the other side. -/
theorem log_right {w w' : Work α} (alike : AlikeUnlessDeep start w w') (e : Event) : AlikeUnlessDeep start w (do
    let a ← w'
    Work.log e
    return a : Work α) := by
  rw [← bind_pure w]
  refine alike.bind fun a => ?_
  intro st st' twins
  exact .inr ⟨rfl, twins.same, twins.persists⟩

end AlikeUnlessDeep
end Work

namespace Directive

open Pair

section
variable {start : Registry} {key t : Text} {e : Entry} (stands : start.entries.get? key = some e)
  (members : e.handler.preprocess = some (.stage .members)) (begins : BeginsWithBrace t) (depth : Nat)
include stands members begins

/-- On a registry that has kept its directive, an object comes to what its members
    come to. -/
theorem expand_kept {st : State} (persists : Registry.Persists start st.registry) :
    expand (depth + 1) ⟨key, some t⟩ st = (do
      let pairs ← expandAll depth (memberPairs start.divider key t)
      Work.log (.removed key)
      return pairs : Work (List Pair)) st := by
  rw [expand_members_braced (persists.entries key e stands) members depth begins, persists.divider]

theorem expand_object : AlikeUnlessDeep start (expand (depth + 1) ⟨key, some t⟩)
    (expandAll (depth + 1) (memberPairs start.divider key t)) := by
  have repeats : Repeats (Twins start) (expandAll (depth + 1) (memberPairs start.divider key t)) :=
    Twins.mirrors.expandAll _ _
  have split := (AlikeUnlessDeep.of_deepens (expandAll_deepens depth _) repeats).log_left (.removed key)
  intro st st' twins
  rw [expand_kept stands members begins depth twins.persists]
  exact split st st' twins

/-- The members come to what the object comes to, which takes one more level. -/
theorem expandAll_members : AlikeUnlessDeep start (expandAll depth (memberPairs start.divider key t))
    (expand (depth + 1) ⟨key, some t⟩) := by
  have repeats : Repeats (Twins start) (expandAll depth (memberPairs start.divider key t)) :=
    Twins.mirrors.expandAll _ _
  have split := (AlikeUnlessDeep.of_repeats repeats).log_right (.removed key)
  intro st st' twins
  have persists : Registry.Persists start st'.registry := by
    rw [← show st.registry = st'.registry from twins.same]
    exact twins.persists
  rw [expand_kept stands members begins depth persists]
  exact split st st' twins

end

theorem preprocessText_eq_error {t : Text} {st st' : State} {f : Fault} (ran : preprocessText t st = .error f st') :
    expandAll (depthLimit st.registry) (split t) st = .error f st' := by
  rw [preprocessText_apply, bind_apply] at ran
  cases expanded : expandAll (depthLimit st.registry) (split t) st with
  | ok ps t' =>
    rw [expanded] at ran
    cases ran
  | error f' t' =>
    rw [expanded] at ran
    cases ran
    rfl

theorem alikeUnlessDeep_append {start : Registry} {depth depth' : Nat} {ps ps' qs qs' : List Pair}
    (first : AlikeUnlessDeep start (expandAll depth ps) (expandAll depth' ps'))
    (others : AlikeUnlessDeep start (expandAll depth qs) (expandAll depth' qs')) :
    AlikeUnlessDeep start (expandAll depth (ps ++ qs)) (expandAll depth' (ps' ++ qs')) := by
  rw [expandAll_append, expandAll_append]
  exact first.bind fun _ => others.bind fun _ => .of_repeats (Repeats.pure _)

/-- A map comes to the same whether it is spelled as an object or as one directive
    for each of its members, with the same fault if there is one, and it leaves the
    same registry. The object is only given up as too deep where the directives of
    the other spelling are so too, or take all the levels there are. -/
theorem map_spellings_agree {st : State} {key : Text} {e : Entry} (stands : st.registry.entries.get? key = some e)
    (splits : e.handler.preprocess = some (.stage .members)) (ordinary : Ordinary key) (some_ : key ≠ [])
    (divided : Ordinary st.registry.divider) {before : Text} (closed : Reading.Closed before) {members : List Pair}
    (spellable : ∀ m ∈ members, Spellable m) (after : Text) :
    ((∃ st', preprocessText (spelledAsObject before key members after) st = .error .tooDeep st') ∨
      Agree OneRegistry Eq (preprocessText (spelledAsObject before key members after) st)
        (preprocessText (spelledApart before key st.registry.divider members after) st)) ∧
    ((∀ st', expandAll (depthLimit st.registry - 1)
        (split (spelledApart before key st.registry.divider members after)) st ≠ .error .tooDeep st') →
      Agree OneRegistry Eq (preprocessText (spelledAsObject before key members after) st)
        (preprocessText (spelledApart before key st.registry.divider members after) st)) := by
  obtain ⟨depth, limit⟩ : ∃ depth, depthLimit st.registry = depth + 1 := ⟨_, rfl⟩
  have begins : BeginsWithBrace (objectOf members) := ⟨[], _, rfl, rfl⟩
  have asObject := split_spelledAsObject spellable closed ordinary some_ after
  have apart := split_spelledApart spellable closed ordinary some_ after divided
  have repeats (depth : Nat) (ps : List Pair) : Repeats (Twins st.registry) (expandAll depth ps) :=
    Twins.mirrors.expandAll depth ps
  have deeper (ps : List Pair) : AlikeUnlessDeep st.registry (expandAll depth ps) (expandAll (depth + 1) ps) :=
    .of_deepens (expandAll_deepens depth ps) (repeats _ _)
  have same (ps : List Pair) : AlikeUnlessDeep st.registry (expandAll (depth + 1) ps) (expandAll (depth + 1) ps) :=
    .of_repeats (repeats _ _)
  -- The members of the object are added one level below it. Both spellings have all levels in `forth`; in
  -- `back` the other spelling has one level less, so that the object has enough wherever that one has.
  have object := expand_object stands splits begins depth
  have members' := expandAll_members stands splits begins depth
  rw [← expandAll_singleton] at object members'
  have forth := alikeUnlessDeep_append (same (split before)) (alikeUnlessDeep_append object (same (split after)))
  have back := alikeUnlessDeep_append (deeper (split before)) (alikeUnlessDeep_append members' (deeper (split after)))
  rw [← asObject, ← apart] at forth back
  have texts := forth.bind fun ps => AlikeUnlessDeep.of_repeats (Repeats.pure (writeDirectives ps))
  have agrees : (∃ st', preprocessText (spelledAsObject before key members after) st = .error .tooDeep st') ∨
      Agree OneRegistry Eq (preprocessText (spelledAsObject before key members after) st)
        (preprocessText (spelledApart before key st.registry.divider members after) st) := by
    rw [preprocessText_apply, preprocessText_apply, limit]
    rcases texts st st (.refl st) with deep | agree
    · exact .inl deep
    · exact .inr (agree.mono (fun _ _ => id) fun _ _ twins => twins.same)
  refine ⟨agrees, fun fits => agrees.resolve_left ?_⟩
  rintro ⟨st', deep⟩
  have ran := preprocessText_eq_error deep
  rw [limit] at ran fits
  rcases back st st (.refl st) with ⟨t, tooDeep⟩ | agree
  · exact fits t tooDeep
  · obtain ⟨t, other, -⟩ := agree.symm.of_error ran
    exact fits t other

/-- A map of classes, with a member that is bare and one that stands twice. -/
def classMap : List Pair :=
  [⟨lit "on", some (lit "a")⟩, ⟨lit "is big", none⟩, ⟨lit "on", some (lit "f(b, [c])")⟩]

theorem map_spellings_agree_classes :
    classes.registry.entries.get? (lit "css") = some ⟨0, { preprocess := some (.stage .members) }⟩ ∧
      Ordinary (lit "css") ∧ Ordinary classes.registry.divider ∧ Reading.Closed (lit "text: x") ∧
      (∀ m ∈ classMap, Spellable m) ∧
      spelledAsObject (lit "text: x") (lit "css") classMap (lit "if: y") =
        lit "text: x, css: \x7bon: a, is big, on: f(b, [c])\x7d, if: y" ∧
      spelledApart (lit "text: x") (lit "css") (lit ".") classMap (lit "if: y") =
        lit "text: x, css.on: a, css.is big, css.on: f(b, [c]), if: y" ∧
      ∃ st' st'', preprocessText (lit "text: x, css: \x7bon: a, is big, on: f(b, [c])\x7d, if: y") classes =
          .ok (lit "text:x,css.on:f(b, [c]),css.is big,if:y") st' ∧
        preprocessText (lit "text: x, css.on: a, css.is big, css.on: f(b, [c]), if: y") classes =
          .ok (lit "text:x,css.on:f(b, [c]),css.is big,if:y") st'' ∧ st'.registry = st''.registry := by
  have written : ∃ st', preprocessText (lit "text: x, css: \x7bon: a, is big, on: f(b, [c])\x7d, if: y") classes =
      .ok (lit "text:x,css.on:f(b, [c]),css.is big,if:y") st' := by
    have output : (match preprocessText (lit "text: x, css: \x7bon: a, is big, on: f(b, [c])\x7d, if: y") classes with
        | .ok t _ => t
        | .error _ _ => []) = lit "text:x,css.on:f(b, [c]),css.is big,if:y" := by decide +kernel
    cases ran : preprocessText (lit "text: x, css: \x7bon: a, is big, on: f(b, [c])\x7d, if: y") classes with
    | ok t st' =>
      rw [ran] at output
      subst output
      exact ⟨st', rfl⟩
    | error f st' =>
      rw [ran] at output
      cases output
  obtain ⟨st', ran⟩ := written
  have stands : classes.registry.entries.get? (lit "css") = some ⟨0, { preprocess := some (.stage .members) }⟩ := rfl
  have key : Ordinary (lit "css") := by decide
  have divider : Ordinary classes.registry.divider := by decide
  have closed : Reading.Closed (lit "text: x") := by decide
  have spellable : ∀ m ∈ classMap, Spellable m := by
    intro m inside
    simp only [classMap, List.mem_cons, List.not_mem_nil, or_false] at inside
    rcases inside with rfl | rfl | rfl
    · refine ⟨by decide, by simp [lit, quotes, openers, closers], by decide, fun v value => ?_, fun v value => ?_⟩
      · cases value
        decide
      · cases value
        exact hidden_top_iff.mp (by decide)
    · refine ⟨by decide, by simp [lit, quotes, openers, closers], by decide, fun v value => ?_, fun v value => ?_⟩
      · cases value
      · cases value
    · refine ⟨by decide, by simp [lit, quotes, openers, closers], by decide, fun v value => ?_, fun v value => ?_⟩
      · cases value
        decide
      · cases value
        exact hidden_top_iff.mp (by decide)
  have object : spelledAsObject (lit "text: x") (lit "css") classMap (lit "if: y") =
      lit "text: x, css: \x7bon: a, is big, on: f(b, [c])\x7d, if: y" := by decide +kernel
  have apart : spelledApart (lit "text: x") (lit "css") (lit ".") classMap (lit "if: y") =
      lit "text: x, css.on: a, css.is big, css.on: f(b, [c]), if: y" := by decide +kernel
  have agrees := (map_spellings_agree stands rfl key (by decide) divider closed spellable (lit "if: y")).1
  rw [object, show classes.registry.divider = lit "." from rfl, apart] at agrees
  refine ⟨stands, key, divider, closed, spellable, object, apart, ?_⟩
  obtain ⟨st'', ran', same⟩ := agree_of_ok agrees ran
  exact ⟨st', st'', ran, ran', same⟩

end Directive
end Bindmark
