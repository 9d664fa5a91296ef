import Bindmark.Proofs.FilteredAttributes
import Bindmark.Proofs.Outputs

/-!
# Tables of filters

The calls that are written for an expression tell which table the filters are
looked up in, as soon as a filter has a name. What a compiler writes is always
written with the table of the runtime, whatever table its settings name: the
setting reaches no preprocessor.
-/

namespace Bindmark

namespace Filter

variable {L L' : Text} {p q : Progress}

/-! ## Calls without the table -/

/-- A filter has a name: a pipe behind the first token has more behind it than
    pipes. -/
def Named (ts : List Token) : Prop :=
  ∃ before after, ts = before ++ .pipe :: after ∧ before ≠ [] ∧ ∃ token ∈ after, token ≠ .pipe

theorem foldl_pipes (L L' : Text) : ∀ {ts : List Token} (p : Progress), (∀ token ∈ ts, token = .pipe) →
    ts.foldl (Progress.step L) p = ts.foldl (Progress.step L') p
  | [], _, _ => rfl
  | token :: ts, p, pipes => by
    obtain ⟨rfl, others⟩ := List.forall_mem_cons.mp pipes
    have same : p.step L .pipe = p.step L' .pipe := by
      obtain ⟨written, place⟩ := p
      cases place <;> rfl
    rw [List.foldl_cons, List.foldl_cons, same, foldl_pipes L L' _ others]

/-- Without a name no table is looked into. -/
theorem callsOfTokens_unnamed {ts : List Token} (unnamed : ¬ Named ts) : callsOfTokens L ts = callsOfTokens L' ts := by
  cases ts with
  | nil => rfl
  | cons first rest =>
    by_cases isPipe : .pipe ∈ rest
    · obtain ⟨before, after, rfl, plain⟩ := List.eq_append_cons_of_mem isPipe
      have pipes : ∀ token ∈ .pipe :: (after ++ [.pipe]), token = Token.pipe := by
        intro token inside
        by_contra other
        have later : token ∈ after := by simpa [other] using inside
        exact unnamed ⟨first :: before, after, rfl, List.cons_ne_nil _ _, token, later, other⟩
      rw [callsOfTokens, callsOfTokens, List.append_assoc, List.cons_append, List.foldl_append, List.foldl_append,
        foldl_step_base L before _ plain, foldl_step_base L' before _ plain, foldl_pipes L L' _ pipes]
    · rw [callsOfTokens, callsOfTokens, List.foldl_append, List.foldl_append, foldl_step_base L rest _ isPipe,
        foldl_step_base L' rest _ isPipe, foldl_pipes L L' _ (by simp)]

/-! ## Calls with a longer table -/

/-- Two readers stand at the same place, and one has written more. -/
structure Ahead (more : Nat) (p q : Progress) : Prop where
  place : p.place = q.place
  length : p.written.length + more ≤ q.written.length

theorem Ahead.step {more : Nat} (ahead : Ahead more p q) (shorter : L.length ≤ L'.length) (token : Token) :
    Ahead more (p.step L token) (q.step L' token) := by
  obtain ⟨written, place⟩ := p
  obtain ⟨written', place'⟩ := q
  obtain ⟨rfl, length⟩ := ahead
  cases place <;> cases token <;> refine ⟨rfl, ?_⟩ <;> simp [Progress.step, openCall] at length ⊢ <;> omega

theorem Ahead.foldl {more : Nat} (ahead : Ahead more p q) (shorter : L.length ≤ L'.length) (ts : List Token) :
    Ahead more (ts.foldl (Progress.step L) p) (ts.foldl (Progress.step L') q) := by
  induction ts generalizing p q with
  | nil => exact ahead
  | cons token ts ih => exact ih (ahead.step shorter token)

/-- The name of a filter has the reader with the longer table write more. -/
theorem Ahead.name (ahead : Ahead 0 p q) (shorter : L.length < L'.length) (isName : p.place = .name) {token : Token}
    (other : token ≠ .pipe) : Ahead 1 (p.step L token) (q.step L' token) := by
  obtain ⟨written, place⟩ := p
  obtain ⟨written', place'⟩ := q
  obtain ⟨rfl, length⟩ := ahead
  obtain rfl : place = .name := isName
  cases token with
  | pipe => exact absurd rfl other
  | _ =>
    refine ⟨rfl, ?_⟩
    simp [Progress.step, openCall] at length ⊢
    omega

theorem ahead_of_named (shorter : L.length < L'.length) : ∀ {ts : List Token} {p q : Progress}, Ahead 0 p q →
    p.place = .name → (∃ token ∈ ts, token ≠ .pipe) →
      Ahead 1 (ts.foldl (Progress.step L) p) (ts.foldl (Progress.step L') q)
  | [], _, _, _, _, named => by
    obtain ⟨token, inside, -⟩ := named
    cases inside
  | token :: ts, p, q, ahead, isName, named => by
    rw [List.foldl_cons, List.foldl_cons]
    by_cases isPipe : token = .pipe
    · subst isPipe
      obtain ⟨name, inside, other⟩ := named
      rcases List.mem_cons.mp inside with rfl | later
      · exact absurd rfl other
      · exact ahead_of_named shorter (ahead.step shorter.le .pipe) (place_step_pipe L p) ⟨name, later, other⟩
    · exact (ahead.name shorter isName isPipe).foldl shorter.le ts

theorem length_callsOfTokens_lt {ts : List Token} (named : Named ts) (shorter : L.length < L'.length) :
    (callsOfTokens L ts).length < (callsOfTokens L' ts).length := by
  obtain ⟨before, after, rfl, based, token, inside, other⟩ := named
  obtain ⟨first, before, rfl⟩ := List.exists_cons_of_ne_nil based
  have start : Ahead 0 ⟨first.text, .base⟩ ⟨first.text, .base⟩ := ⟨rfl, le_refl _⟩
  have behind := ((start.foldl shorter.le before).step shorter.le .pipe)
  have ahead := ahead_of_named shorter behind (place_step_pipe L _)
    ⟨token, List.mem_append_left [.pipe] inside, other⟩
  have length := ahead.length
  rw [List.cons_append, callsOfTokens, callsOfTokens, List.append_assoc, List.cons_append, List.foldl_append,
    List.foldl_append, List.foldl_cons, List.foldl_cons]
  omega

/-! ## The table of calls -/

theorem calls_eq_of_named (L : Text) {t : Text} (named : Named (tokens t)) :
    calls L t = callsOfTokens L (tokens t) := by
  obtain ⟨before, after, split, based, -⟩ := named
  refine calls_eq_callsOfTokens L ?_ ?_
  · rw [split]
    exact List.mem_append_right _ (List.mem_cons_self ..)
  · have some_ := List.length_pos_iff.mpr based
    rw [split, List.length_append, List.length_cons]
    omega

/-- The calls of an expression are the same with two tables exactly if the tables
    have the same name, or no filter has one. -/
theorem calls_congr_iff {t : Text} : calls L t = calls L' t ↔ L = L' ∨ ¬ Named (tokens t) := by
  constructor
  · intro same
    by_contra differ
    rw [not_or, not_not] at differ
    obtain ⟨other, named⟩ := differ
    obtain ⟨before, after, split, based, more⟩ := id named
    have begins := calls_of_pipe L split based more
    have begins' := calls_of_pipe L' split based more
    rw [calls_eq_of_named L named, calls_eq_of_named L' named] at same
    rcases Nat.lt_trichotomy L.length L'.length with shorter | equal | longer
    · have length := length_callsOfTokens_lt named shorter
      rw [same] at length
      exact Nat.lt_irrefl _ length
    · rw [calls_eq_of_named L named, same, ← calls_eq_of_named L' named] at begins
      have prefix_ := List.prefix_of_prefix_length_le ((List.prefix_append L _).trans begins)
        ((List.prefix_append L' _).trans begins') equal.le
      exact other (prefix_.eq_of_length equal)
    · have length := length_callsOfTokens_lt named longer
      rw [same] at length
      exact Nat.lt_irrefl _ length
  · rintro (rfl | unnamed)
    · rfl
    · unfold calls
      split
      · split
        · rfl
        · rfl
        · exact callsOfTokens_unnamed unnamed
      · rfl

end Filter

open Work Standard Rewriting Output

variable {L : Text} {c : Compiler}

/-! ## Directives with filters -/

/-- A directive whose value may hold filters. -/
def HasFilters (key : Text) : Prop :=
  key = lit "text" ∨ key = lit "html" ∨ ∃ name, Interpolation.PlainName name ∧ key = Interpolation.memberKey name

theorem HasFilters.exists_handler {key : Text} (filters : HasFilters key) :
    ∃ h, handlerOf key = some h ∧ role? h = some .filters := by
  have shown (own : key = lit "text" ∨ key = lit "html") : Shown ⟨key, []⟩ := ⟨own, rfl⟩
  rcases filters with text | html | ⟨name, plain, rfl⟩
  · exact (shown (.inl text)).exists_handler
  · exact (shown (.inr html)).exists_handler
  · exact Interpolation.handlerOf_memberKey plain

/-- A directive string is preprocessed with the filters of its directives as calls. -/
theorem HasFilters.preprocessText_gives {key t value : Text} (filters : HasFilters key)
    (inside : ⟨key, some value⟩ ∈ Pair.split t) (some_ : value ≠ []) :
    Gives Grown (Directive.preprocessText t) fun processed => ∃ pairs, processed = Pair.writeDirectives pairs ∧
      ⟨key, some (Filter.calls Filter.standardLookup value)⟩ ∈ pairs := by
  obtain ⟨h, made, role⟩ := filters.exists_handler
  refine preprocessText_of_expandAll fun depth => (expandAll_gives depth (Pair.split t)).weaken fun results held => ?_
  exact held key h value inside made role (Filter.calls_ne_nil _ some_)

/-- A text node gives way to nodes among which there are the comments of each of its
    outputs. -/
theorem rewriteText_holds {parent : Text} {kind : LeafKind} {t e : Text} {before behind : List Segment} {o : Output}
    (isText : Interpolation.isInterpolated kind = true)
    (notRaw : Interpolation.isRaw (.filtering L) (some parent) = false)
    (scanned : Segment.scan (lit "\x7b\x7b") (lit "\x7d\x7d") t = some (before ++ .expression e :: behind))
    (isOutput : ofExpression? e = some o) (single : o.Single) :
    Gives Grown (rewriteNodes (.filtering L) parent [.leaf kind t]) fun nodes =>
      ∃ first last, nodes = first ++ (o.comments ++ last) := by
  have interpolated : Interpolation.textNodes? (.filtering L) (some parent) (.leaf kind t) =
      some (Interpolation.segmentsNodes (.filtering L) (before ++ .expression e :: behind)) := by
    simp only [Interpolation.textNodes?, isText, notRaw, Bool.not_false, Bool.and_self, if_true, scanned]
    cases before <;> rfl
  rw [rewriteNodes_singleton, rewriteNode]
  refine (count_gives _).bind fun _ _ => ?_
  rw [rewriteLeaf, interpolated]
  refine (log_gives _).bind fun _ _ => (count_gives _).bind fun _ _ => ?_
  have others (segments : List Segment) := mapM_gives (rewriteMarker_gives (.filtering L))
    (Interpolation.segmentsNodes (.filtering L) segments)
  have here : Gives Grown ((Interpolation.segmentNodes (.filtering L) (.expression e)).mapM
      (rewriteMarker (.filtering L))) fun nodes => nodes = o.comments := by
    have only : AllSingle [.expression e] := by
      intro e' inside
      obtain rfl : e' = e := by simpa using inside
      exact ⟨o, isOutput, single⟩
    refine (segmentNodes_gives only).weaken fun nodes same => ?_
    rw [same, nodesOf, isOutput]
    rfl
  rw [Interpolation.segmentsNodes, List.flatMap_append, List.flatMap_cons, List.mapM_append, List.mapM_append]
  refine (others before).bind fun first _ => Gives.bind (Q := fun nodes => ∃ last, nodes = o.comments ++ last) ?_ ?_
  · refine here.bind fun comments same => (others behind).bind fun last _ => Gives.pure ⟨last, ?_⟩
    rw [same]
  · rintro rest ⟨last, rfl⟩
    exact Gives.pure ⟨first, last, rfl⟩

/-! ## Compilers with a table of their own -/

/-- Whatever table of filters the settings of a default compiler name, and whatever
    it has done before, the calls that it writes for outputs in text and for the
    values of directives look filters up in the table of the runtime. They are the
    calls with the table of the settings exactly if that is the same one, or no
    filter has a name. -/
theorem calls_with_standardLookup {verbosity : Option Int} (made : Compiler.make (.filtering L) verbosity true = .ok c)
    (jobs : List Job) :
    (∀ spot : Spot, NoWordsIn (.filtering L) (spot.fill []) → ∃ after : Spot, after.tags = spot.tags ∧
      ∀ kind t before e behind o, Interpolation.isInterpolated kind = true →
        Interpolation.isRaw (.filtering L) (some (spot.parent Document.rootTag)) = false →
        Segment.scan (lit "\x7b\x7b") (lit "\x7d\x7d") t = some (before ++ .expression e :: behind) →
        ofExpression? e = some o → o.Single →
          ∃ first last, ((c.after jobs).compileTree (spot.fill [.leaf kind t])).1 =
            .ok (after.fill (first ++ ([.ofComment (lit "ko " ++ (o.key ++ lit ":" ++
              Filter.calls Filter.standardLookup o.content)), .ofComment (lit "/ko")] ++ last)))) ∧
    (∀ t key value, HasFilters key → ⟨key, some value⟩ ∈ Pair.split t → value ≠ [] →
      ∃ pairs, ((c.after jobs).run (Directive.preprocessText t)).1 = .ok (Pair.writeDirectives pairs) ∧
        ⟨key, some (Filter.calls Filter.standardLookup value)⟩ ∈ pairs) ∧
    ∀ value, Filter.calls Filter.standardLookup value = Filter.calls L value ↔
      Filter.standardLookup = L ∨ ¬ Filter.Named (Filter.tokens value) := by
  have settings := Compiler.settings_make made
  have standard := Compiler.nodeStages_make made
  have plain := (Configured.ofMake made).plain
  have grown : Grown c.state := grown_make rfl rfl made
  have reached := Compiler.reached_after plain jobs c (.refl c.state)
  refine ⟨fun spot noWords => ?_, fun t key value filters inside some_ => ?_, fun value => Filter.calls_congr_iff⟩
  · obtain ⟨after, compiled⟩ := Spot.exists_compiled grown Document.rootTag noWords
    refine ⟨after, Spot.tags_compiled compiled, ?_⟩
    intro kind t before e behind o isText notRaw scanned isOutput single
    obtain ⟨_, ended, first, last, rfl⟩ := settled_eq_ok (rewriteText_holds isText notRaw scanned isOutput single) grown
    have repeats := rewriteNodes_repeats plain standard (.filtering L) (spot.parent Document.rootTag) [.leaf kind t]
    have settles := Spot.fill_settles plain standard ((settles_of_repeats repeats).congr ended)
    refine ⟨first, last, compileTree_of_reached standard reached ?_⟩
    rw [Compiler.settings_after, settings]
    exact settles.congr (by rw [compiled]; rfl)
  · have repeats := (Alongside.mirrorsDocuments plain).preprocessText t
    obtain ⟨processed, ran, pairs, rfl, held⟩ :=
      Compiler.run_after_of_gives plain repeats (filters.preprocessText_gives inside some_) grown jobs
    exact ⟨pairs, ran, held⟩

/-- An output with a filter, as a text and as a directive. -/
def shouting : Text := lit "\x7b\x7b x | upper \x7d\x7d"

theorem calls_with_standardLookup_shouting :
    ∃ c, Compiler.make (.filtering (lit "fx")) none true = .ok c ∧
      (∃ (after : Spot) (first last : List Node), (c.compileTree (Spot.fill [.ofText shouting] (.here [] []))).1 =
        .ok (after.fill
          (first ++ ([.ofComment (lit "ko text:filters['upper'](x)"), .ofComment (lit "/ko")] ++ last)))) ∧
      (∃ pairs, (c.run (Directive.preprocessText (lit "text: x | upper"))).1 = .ok (Pair.writeDirectives pairs) ∧
        ⟨lit "text", some (lit "filters['upper'](x)")⟩ ∈ pairs) ∧
      Filter.calls Filter.standardLookup (lit "x | upper") ≠ Filter.calls (lit "fx") (lit "x | upper") := by
  have isOk : (Compiler.make (.filtering (lit "fx")) none true).toOption.isSome = true := by decide +kernel
  have calls : Filter.calls Filter.standardLookup (lit "x | upper") = lit "filters['upper'](x)" := by decide +kernel
  have scanned : Segment.scan (lit "\x7b\x7b") (lit "\x7d\x7d") shouting = some [.expression (lit " x | upper ")] := by
    decide +kernel
  have isOutput : ofExpression? (lit " x | upper ") = some ⟨lit "text", lit "x | upper"⟩ := by decide +kernel
  have single : Output.Single ⟨lit "text", lit "x | upper"⟩ := ⟨by decide, Reading.hidden_top_iff.mp (by decide)⟩
  cases made : Compiler.make (.filtering (lit "fx")) none true with
  | error e =>
    rw [made] at isOk
    cases isOk
  | ok c =>
    obtain ⟨texts, directives, tables⟩ := calls_with_standardLookup made []
    obtain ⟨after, -, shown⟩ := texts (.here [] []) (by simp [Spot.fill, NoWordsIn])
    obtain ⟨first, last, compiled⟩ :=
      shown .text shouting [] (lit " x | upper ") [] _ rfl (by decide) scanned isOutput single
    obtain ⟨pairs, processed, held⟩ := directives (lit "text: x | upper") (lit "text") (lit "x | upper") (.inl rfl)
      (by decide +kernel) (by decide)
    rw [calls] at compiled held
    refine ⟨c, rfl, ⟨after, first, last, compiled⟩, ⟨pairs, processed, held⟩, fun same => ?_⟩
    rcases (tables (lit "x | upper")).mp same with equal | unnamed
    · exact absurd equal (by decide)
    · refine unnamed ⟨[.run (lit "x")], [.run (lit "upper")], by decide +kernel, by simp, .run (lit "upper"), ?_, ?_⟩
      · exact List.mem_singleton_self _
      · intro same
        cases same

end Bindmark
