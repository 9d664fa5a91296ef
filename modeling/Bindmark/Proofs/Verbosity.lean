import Bindmark.Proofs.MarkerOrder
import Bindmark.Proofs.Settling

/-!
# Verbosity

Whoever is bound to the log, and with whatever verbosity, a compiler does the same:
only the log differs, which holds the events of every level up to the verbosity. With
the normal verbosity it holds what comment markers report and nothing else.
-/

namespace Bindmark

open Work

/-! ## Hearing -/

/-- Whether an event comes to the log. -/
def LogBinding.hears (binding : LogBinding) (verbosity : Int) (e : Event) : Bool :=
  match binding with
  | .unbound => false
  | .silent => false
  | .compiler => e.level ≤ verbosity

theorem LogBinding.lines_eq (binding : LogBinding) (verbosity : Int) (events : List Event) :
    binding.lines verbosity events = (events.filter (binding.hears verbosity)).map Event.message := by
  have deaf : events.filter (fun _ => false) = [] := List.filter_eq_nil_iff.mpr fun _ _ => Bool.false_ne_true
  cases binding with
  | compiler => rfl
  | unbound => exact (congrArg (List.map Event.message) deaf).symm
  | silent => exact (congrArg (List.map Event.message) deaf).symm

theorem LogBinding.hears_eq_false {binding : LogBinding} (other : binding ≠ .compiler) (verbosity : Int) (e : Event) :
    binding.hears verbosity e = false := by
  cases binding with
  | compiler => exact absurd rfl other
  | unbound => rfl
  | silent => rfl

theorem Event.level_le (e : Event) : e.level ≤ 3 := by
  cases e <;> simp [Event.level]

/-- With the highest verbosity everything is heard. -/
theorem filter_hears_of_le {verbosity : Int} (highest : 3 ≤ verbosity) (events : List Event) :
    events.filter (LogBinding.compiler.hears verbosity) = events :=
  List.filter_eq_self.mpr fun e _ => decide_eq_true (Int.le_trans e.level_le highest)

theorem filter_hears_one (events : List Event) : events.filter (LogBinding.compiler.hears 1) = normal events := by
  refine List.filter_congr fun e _ => ?_
  rw [LogBinding.hears, Event.isDetail, ← decide_not]
  exact decide_eq_decide.mpr Int.not_lt.symm

/-! ## Tasks -/

/-- Something that is done with a compiler. -/
inductive Task where
  | compile (source : Text)
  | compileTree (nodes : List Node)
  | preprocess (directives : Text)
  | lookup (key : Text)

namespace Task

/-- What comes of a task. -/
def Value : Task → Type
  | .compile _ => Text
  | .compileTree _ => List Node
  | .preprocess _ => Text
  | .lookup _ => Option Entry

def work (s : Settings) : (task : Task) → Work task.Value
  | .compile source => Compiler.compile s source
  | .compileTree nodes => Compiler.compileDocument s nodes
  | .preprocess directives => Directive.preprocessText directives
  | .lookup key => Registry.lookup key

/-- What is bound to the log during a task: to compile a source, a compiler binds
    itself. -/
def bound (binding : LogBinding) : Task → LogBinding
  | .compile _ => .compiler
  | _ => binding

/-- The document that is compiled in a task, if there is one. -/
def document : Task → List Node
  | .compile source => Html.read source
  | .compileTree nodes => nodes
  | .preprocess _ => []
  | .lookup _ => []

/-- The markers that are preprocessed in a task. -/
def markers (s : Settings) : Task → State → List Visit.Marker
  | .compile source, st =>
    if Compiler.readers.contains s.htmlReader then
      Document.markers s (Html.read source) { st with journal := st.journal ++ [.started], stats := {} }
    else []
  | .compileTree nodes, st => Document.markers s nodes { st with stats := {} }
  | .preprocess _, _ => []
  | .lookup _, _ => []

theorem speaks (s : Settings) (task : Task) : Speaks (fun _ => True) (task.work s) := by
  have all : ∀ e : Event, e.isDetail → True := fun _ _ => trivial
  cases task with
  | compile source => exact Compiler.compile_speaks all (fun _ => trivial) s source
  | compileTree nodes => exact Compiler.compileDocument_speaks all (fun _ => trivial) s nodes
  | preprocess directives => exact Directive.preprocessText_speaks all directives
  | lookup key => exact Registry.lookup_speaks all key

theorem normally_compile (s : Settings) (source : Text) (st : State) :
    normally (Compiler.compile s source) st = Visit.reports ((Task.compile source).markers s st) := by
  have all : ∀ e : Event, e.isDetail → True := fun _ _ => trivial
  have detail : ∀ e : Event, e.isDetail → e.isDetail := fun _ => id
  have started : Work.log .started st = .ok () { st with journal := st.journal ++ [.started] } := rfl
  have begins : Speaks (fun e => e.isDetail) (Work.log .started) := .log (detail _ rfl)
  have compiled := Compiler.compileDocument_speaks all (fun _ => trivial) s (Html.read source)
  have written (nodes : List Node) : Speaks (fun e => e.isDetail) (do
      let stats ← Compiler.stats
      Work.log (.compiled stats.nodes stats.replaced stats.directives)
      return Html.write nodes) :=
    Speaks.bind (.quiet fun _ _ => rfl) fun _ => (Speaks.log (detail _ rfl)).bind fun _ => .pure _
  have body := compiled.bind fun nodes => (written nodes).mono all
  rw [Compiler.compile_eq, normally_detail_bind begins (fun _ => .optional (.throw _) fun _ => body) started, markers]
  cases known : Compiler.readers.contains s.htmlReader with
  | false => rfl
  | true =>
    have told := Compiler.normally_compileDocument s (Html.read source) { st with journal := st.journal ++ [.started] }
    rw [if_pos rfl, ← told]
    exact normally_bind_detail compiled written _

/-- Tasks tell what their markers tell, apart from details. -/
theorem normally_work (s : Settings) (task : Task) (st : State) :
    normally (task.work s) st = Visit.reports (task.markers s st) := by
  cases task with
  | compile source => exact normally_compile s source st
  | compileTree nodes => exact Compiler.normally_compileDocument s nodes st
  | preprocess directives => exact (Directive.preprocessText_speaks (fun _ => id) directives).normally_eq_nil st
  | lookup key => exact (Registry.lookup_speaks (fun _ => id) key).normally_eq_nil st

/-- In a plain registry the keys that a marker may not hold are known beforehand. -/
theorem keys_of_mem_markers {s : Settings} {task : Task} {st : State} (plain : st.registry.Plain) {m : Visit.Marker}
    (inside : m ∈ task.markers s st) : m.keys = ((Pair.split m.directives).map Pair.key).filter st.registry.bars := by
  have grown : st.registry.Grown m.before.registry := by
    cases task with
    | compile source =>
      rw [markers] at inside
      split at inside
      · refine Document.grown_of_mem_markers plain inside ?_
        exact .refl _
      · cases inside
    | compileTree nodes => exact Document.grown_of_mem_markers plain inside (.refl _)
    | preprocess directives => cases inside
    | lookup key => cases inside
  exact m.checks.keys_eq plain grown

/-- With the standard stages the markers of a task follow its document. -/
theorem markers_follow {s : Settings} (on : s.preprocessDirectives = true) {st : State}
    (standard : st.nodeStages = some Standard.nodeStages) (task : Task) :
    Visit.Follows (task.markers s st) (Visit.markerTexts s (Document.snapshots Document.rootTag task.document))
      (Visit.Finishes (task.work s) st) := by
  cases task with
  | compile source =>
    rw [markers]
    split
    · rename_i known
      refine (Document.markers_follow on (Html.read source) ?_).mono ?_
      · exact standard
      · rintro ⟨_, _, finished⟩
        obtain ⟨_, _, started, finished⟩ := bind_eq_ok finished
        cases started
        rw [known] at finished
        obtain ⟨nodes, st', compiled, -⟩ := bind_eq_ok finished
        exact ⟨nodes, st', compiled⟩
    · rename_i unknown
      refine ⟨List.nil_prefix, ?_⟩
      rintro ⟨_, _, finished⟩
      obtain ⟨_, _, started, finished⟩ := bind_eq_ok finished
      rw [eq_false_of_ne_true unknown] at finished
      cases finished
  | compileTree nodes => exact Document.markers_follow on nodes standard
  | preprocess directives => exact .nothing
  | lookup key => exact .nothing

end Task

/-! ## Runs with something bound -/

namespace Compiler

/-- The state in which a compiler begins with a task. -/
def begun (c : Compiler) : State := { c.state with calls := [], journal := [] }

/-- The run of a task with something bound to the log, and what it ends with: wherever
    the task logs an event, it is asked at that point whether the event is heard. -/
def RunsBound (c : Compiler) (task : Task) (binding : LogBinding) (verbosity : Int)
    (ran : Except Fault task.Value × State) : Prop :=
  ∃ w, Gated ((task.bound binding).hears verbosity) (task.work c.settings) w ∧ outcome (w c.begun) = ran

variable {c : Compiler} {task : Task} {binding : LogBinding} {verbosity : Int}
  {ran : Except Fault task.Value × State}

theorem outcome_withJournal {α : Type} (journal : List Event) (ran : EStateM.Result Fault State α) :
    outcome (withJournal journal ran) = ((outcome ran).1, { (outcome ran).2 with journal }) := by
  cases ran <;> rfl

theorem journal_run {α : Type} (c : Compiler) (w : Work α) : (c.run w).2.state.journal = logged w c.begun := by
  rw [state_run]
  rfl

/-- A run with something bound is the run that logs everything, with what is not heard
    left out of the journal. -/
theorem RunsBound.eq (runs : c.RunsBound task binding verbosity ran) :
    ran = ((c.run (task.work c.settings)).1,
      { (c.run (task.work c.settings)).2.state with
        journal := (c.run (task.work c.settings)).2.state.journal.filter ((task.bound binding).hears verbosity) }) := by
  obtain ⟨w, gated, rfl⟩ := runs
  rw [journal_run]
  exact (congrArg outcome (gated.run_eq c.begun [])).trans (outcome_withJournal _ _)

theorem exists_runsBound (c : Compiler) (task : Task) (binding : LogBinding) (verbosity : Int) :
    ∃ ran, c.RunsBound task binding verbosity ran := by
  obtain ⟨w, gated⟩ := (task.speaks c.settings).exists_gated ((task.bound binding).hears verbosity)
  exact ⟨_, w, gated, rfl⟩

theorem finishes_of_run {α : Type} {w : Work α} (finished : ∃ a, (c.run w).1 = .ok a) : Visit.Finishes w c.begun := by
  obtain ⟨a, result⟩ := finished
  rw [run] at result
  cases ran : w c.begun with
  | ok a st => exact ⟨a, st, ran⟩
  | error e st =>
    rw [begun] at ran
    rw [ran] at result
    cases result

/-- Logging does not interfere. A task can be run with anything bound to the log, and
    runs with different things bound or with different verbosities end with the same
    value or fault and with the same state, apart from the journal. What is logged with
    one verbosity is what is logged with the highest one, in its order and without the
    events of higher levels, and nothing is logged unless a compiler is bound. With the
    normal verbosity the log is what the markers report that are preprocessed, one after
    the other. If the registry is plain, a marker reports every key that it holds and that
    has a handler, but is not permitted, each time that it holds it. With the standard
    stages the markers follow the document. -/
theorem runsBound_agree (c : Compiler) (task : Task) :
    (∀ binding verbosity, ∃ ran, c.RunsBound task binding verbosity ran) ∧
      (∀ binding verbosity ran, c.RunsBound task binding verbosity ran →
        ran.1 = (c.run (task.work c.settings)).1 ∧
          ran.2.journal.map Event.message =
            (task.bound binding).lines verbosity (c.run (task.work c.settings)).2.state.journal) ∧
      (∀ binding binding' verbosity verbosity' ran ran', c.RunsBound task binding verbosity ran →
        c.RunsBound task binding' verbosity' ran' →
        ran.1 = ran'.1 ∧ { ran.2 with journal := [] } = { ran'.2 with journal := [] }) ∧
      (∀ verbosity highest ran ran', 3 ≤ highest → c.RunsBound task .compiler verbosity ran →
        c.RunsBound task .compiler highest ran' →
        ran.2.journal = ran'.2.journal.filter fun e => e.level ≤ verbosity) ∧
      (∀ binding verbosity ran, task.bound binding ≠ .compiler → c.RunsBound task binding verbosity ran →
        ran.2.journal = []) ∧
      (∀ ran, c.RunsBound task .compiler 1 ran →
        ran.2.journal = Visit.reports (task.markers c.settings c.begun)) ∧
      (c.state.registry.Plain → ∀ m ∈ task.markers c.settings c.begun,
        m.keys = ((Pair.split m.directives).map Pair.key).filter c.state.registry.bars) ∧
      (c.settings.preprocessDirectives = true → c.state.nodeStages = some Standard.nodeStages →
        Visit.Follows (task.markers c.settings c.begun)
          (Visit.markerTexts c.settings (Document.snapshots Document.rootTag task.document))
          (∃ value, (c.run (task.work c.settings)).1 = .ok value)) := by
  have bound : task.bound .compiler = .compiler := by cases task <;> rfl
  refine ⟨c.exists_runsBound task, ?_, ?_, ?_, ?_, ?_, ?_, ?_⟩
  · intro binding verbosity ran runs
    rw [runs.eq, LogBinding.lines_eq]
    exact ⟨rfl, rfl⟩
  · intro binding binding' verbosity verbosity' ran ran' runs runs'
    rw [runs.eq, runs'.eq]
    exact ⟨rfl, rfl⟩
  · intro verbosity highest ran ran' most runs runs'
    rw [runs.eq, runs'.eq, bound, filter_hears_of_le most]
    rfl
  · intro binding verbosity ran other runs
    rw [runs.eq]
    exact List.filter_eq_nil_iff.mpr fun e _ => by simp [LogBinding.hears_eq_false other]
  · intro ran runs
    rw [runs.eq, bound, filter_hears_one, journal_run, ← Task.normally_work]
    rfl
  · intro plain m inside
    have start : c.begun.registry.Plain := plain
    exact Task.keys_of_mem_markers start inside
  · intro on standard
    have start : c.begun.nodeStages = some Standard.nodeStages := standard
    exact (task.markers_follow on start).mono finishes_of_run

/-- A marker that holds a key twice that is known from its namespace, but may not stand
    there. -/
def barred : List Node := [.ofComment (lit "ko attr.href: a, if: b, attr.href: c")]

theorem runsBound_agree_barred :
    ∃ one three unbound : Except Fault (List Node) × State,
      standard.RunsBound (.compileTree barred) .compiler 1 one ∧
      standard.RunsBound (.compileTree barred) .compiler 3 three ∧
      standard.RunsBound (.compileTree barred) .unbound 3 unbound ∧
      one.1 = three.1 ∧ one.1 = unbound.1 ∧
      one.2.journal = [.notAllowed (lit "attr.href"), .notAllowed (lit "attr.href")] ∧
      one.2.journal = three.2.journal.filter (fun e => e.level ≤ 1) ∧
      unbound.2.journal = [] ∧
      (∀ m ∈ (Task.compileTree barred).markers standard.settings standard.begun,
        m.keys = ((Pair.split m.directives).map Pair.key).filter standard.state.registry.bars) ∧
      ((Task.compileTree barred).markers standard.settings standard.begun).map Visit.Marker.directives =
        [lit "attr.href: a, if: b, attr.href: c"] := by
  have told : Visit.reports ((Task.compileTree barred).markers standard.settings standard.begun) =
      [.notAllowed (lit "attr.href"), .notAllowed (lit "attr.href")] := by decide +kernel
  obtain ⟨runs, -, agree, heard, deaf, normally, keys, follow⟩ := runsBound_agree standard (.compileTree barred)
  obtain ⟨one, runsOne⟩ := runs .compiler 1
  obtain ⟨three, runsThree⟩ := runs .compiler 3
  obtain ⟨unbound, runsUnbound⟩ := runs .unbound 3
  refine ⟨one, three, unbound, runsOne, runsThree, runsUnbound, (agree _ _ _ _ _ _ runsOne runsThree).1,
    (agree _ _ _ _ _ _ runsOne runsUnbound).1, (normally one runsOne).trans told,
    heard 1 3 one three (by decide) runsOne runsThree, deaf .unbound 3 unbound (by decide) runsUnbound,
    keys configured_standard.plain, ?_⟩
  have texts : Visit.markerTexts standard.settings (Document.snapshots Document.rootTag barred) =
      [lit "attr.href: a, if: b, attr.href: c"] := by decide +kernel
  rw [← texts]
  refine (follow rfl nodeStages_standard).all ?_
  have returns : (standard.run ((Task.compileTree barred).work standard.settings)).1.isOk = true := by decide +kernel
  cases is : (standard.run ((Task.compileTree barred).work standard.settings)).1 with
  | ok value => exact ⟨value, rfl⟩
  | error e =>
    rw [is] at returns
    cases returns

end Compiler
end Bindmark
