import Surface.Proofs.Disk.Content
import Surface.Proofs.Snapshot.Events
import Surface.Run

/-! # The course of a run

Each operation that a run starts is ended, by its success or by its failure, before the operation
around it is. A run therefore takes one of three courses: the old snapshot fails and the new one is
never started, the new one fails, or both are read, compared and rendered. Both failures on the way
out are the one that is returned, and the numbers told of a successful run are those of its result.
-/

namespace Surface

namespace Event

/-- How operations start and end among other events. -/
def brackets (events : List Event) : List (Operation × Phase) := events.filterMap bracket?

/-- The kinds and codes that failing operations tell. -/
def failures (events : List Event) : List (Option Text × Option Text) :=
  (events.filter fun e => e.bracket?.any fun b => b.2 == .failure).map fun e =>
    (e.text? "err.kind", e.text? "err.code")

theorem brackets_filter_isBracket (events : List Event) :
    brackets (events.filter isBracket) = brackets events := by
  rw [brackets, List.filterMap_filter]
  congr 1
  funext e
  cases h : e.bracket? <;> simp [isBracket, h]

theorem atBracket_filter_isBracket (op : Operation) (phase : Phase) (events : List Event) :
    atBracket op phase (events.filter isBracket) = atBracket op phase events := by
  rw [atBracket, List.filter_filter]
  refine List.filter_congr fun e _ => ?_
  cases h : e.bracket? <;> simp [isBracket, h]

theorem failures_filter_isBracket (events : List Event) :
    failures (events.filter isBracket) = failures events := by
  rw [failures, failures, List.filter_filter]
  refine congrArg _ (List.filter_congr fun e _ => ?_)
  cases h : e.bracket? <;> simp [isBracket, h]

end Event

open Event

namespace Snapshot

variable {options : ReadOptions} {w : Workspace} {root : Text} {f : Failure}

/-- Nothing inside a snapshot starts or ends an operation. -/
theorem filter_isBracket_readRoot (options : ReadOptions) (w : Workspace) (root : Text) :
    (readRoot options w root).events.filter isBracket = [] := by
  refine List.filter_eq_nil_iff.2 fun e he => ?_
  rw [isBracket, (inner_readRoot options w root e he).bracket?_eq_none]
  exact Bool.false_ne_true

theorem filter_isBracket_read_failed (h : (read options w root).failure = some f) :
    (read options w root).events.filter isBracket =
      [.readStarted root, .readFailed root f.kind] := by
  have hroot : (readRoot options w root).failure = some f := h
  simp only [read, hroot, List.cons_append, List.filter_cons, List.filter_append,
    filter_isBracket_readRoot]
  rfl

theorem filter_isBracket_read (h : (read options w root).failure = none) :
    (read options w root).events.filter isBracket =
      [.readStarted root, .readEnded root (read options w root).table.size
        (read options w root).table.classes.length] := by
  have hroot : (readRoot options w root).failure = none := h
  simp only [read, hroot, List.cons_append, List.filter_cons, List.filter_append,
    filter_isBracket_readRoot]
  rfl

end Snapshot

/-- What a run between two tables comes to, and the numbers it tells. -/
structure Succeeds (config : Config) (old new : SymbolTable) (t : Traced Text) : Prop where
  result : t.result = .ok (Report.render config (Report.between old new))
  brackets_eq : brackets t.events =
    [(.run, .start), (.readSnapshot, .start), (.readSnapshot, .finish), (.readSnapshot, .start),
      (.readSnapshot, .finish), (.compare, .start), (.compare, .finish), (.run, .finish)]
  symbolsRead : (atBracket .readSnapshot .finish t.events).map (number? "symbol_count") =
    [some old.size, some new.size]
  symbolsCompared : (atBracket .compare .start t.events).map
    (fun e => (e.number? "old_symbols", e.number? "new_symbols")) = [(some old.size, some new.size)]
  changes : (atBracket .compare .finish t.events).map (fun e => (e.number? "additions",
      e.number? "deletions", e.number? "modifications", e.number? "class_count")) =
    let summary := (Report.between old new).summary
    [(some summary.additions, some summary.deletions, some summary.modifications,
      some summary.classes)]
  outputBytes : (atBracket .run .finish t.events).map (number? "output_bytes") =
    [some (Workspace.encode (Report.render config (Report.between old new))).size]

/-- What an event tells of a failure. -/
def Failure.told (f : Failure) : Option Text × Option Text :=
  (some (Choice.name f.kind), some f.kind.code)

/-- The three courses that a run can take. -/
inductive Course (config : Config) (w : Workspace) (oldRoot newRoot : Text) (t : Traced Text) :
    Prop
  | oldFails (f : Failure)
      (old : (Snapshot.read config.readOptions w oldRoot).failure = some f)
      (result : t.result = .error f)
      (brackets_eq : brackets t.events =
        [(.run, .start), (.readSnapshot, .start), (.readSnapshot, .failure), (.run, .failure)])
      (roots : (atBracket .readSnapshot .start t.events).map (text? "snapshot_path") =
        [some oldRoot])
      (failures_eq : failures t.events = [f.told, f.told])
  | newFails (f : Failure)
      (old : (Snapshot.read config.readOptions w oldRoot).failure = none)
      (new : (Snapshot.read config.readOptions w newRoot).failure = some f)
      (result : t.result = .error f)
      (brackets_eq : brackets t.events =
        [(.run, .start), (.readSnapshot, .start), (.readSnapshot, .finish),
          (.readSnapshot, .start), (.readSnapshot, .failure), (.run, .failure)])
      (roots : (atBracket .readSnapshot .start t.events).map (text? "snapshot_path") =
        [some oldRoot, some newRoot])
      (failures_eq : failures t.events = [f.told, f.told])
  | succeeds
      (old : (Snapshot.read config.readOptions w oldRoot).failure = none)
      (new : (Snapshot.read config.readOptions w newRoot).failure = none)
      (roots : (atBracket .readSnapshot .start t.events).map (text? "snapshot_path") =
        [some oldRoot, some newRoot])
      (succeeds : Succeeds config (Snapshot.read config.readOptions w oldRoot).table
        (Snapshot.read config.readOptions w newRoot).table t)

section

variable {config : Config} {w : Workspace} {oldRoot newRoot : Text} {f : Failure}

theorem run_of_old_failed (newRoot : Text)
    (hold : (Snapshot.read config.readOptions w oldRoot).failure = some f) :
    (run config w oldRoot newRoot).result = .error f ∧
    (run config w oldRoot newRoot).events.filter isBracket =
      [.runStarted oldRoot newRoot config.dialect, .readStarted oldRoot,
        .readFailed oldRoot f.kind, .runFailed f.kind] := by
  simp only [run, Report.betweenSnapshots, Progress.traced, hold, Traced.bind, Traced.map,
    Except.map, List.cons_append, List.filter_cons, List.filter_append,
    Snapshot.filter_isBracket_read_failed hold, true_and]
  rfl

theorem run_of_new_failed (hold : (Snapshot.read config.readOptions w oldRoot).failure = none)
    (hnew : (Snapshot.read config.readOptions w newRoot).failure = some f) :
    (run config w oldRoot newRoot).result = .error f ∧
    (run config w oldRoot newRoot).events.filter isBracket =
      let old := (Snapshot.read config.readOptions w oldRoot).table
      [.runStarted oldRoot newRoot config.dialect, .readStarted oldRoot,
        .readEnded oldRoot old.size old.classes.length, .readStarted newRoot,
        .readFailed newRoot f.kind, .runFailed f.kind] := by
  simp only [run, Report.betweenSnapshots, Progress.traced, hold, hnew, Traced.bind, Traced.map,
    Except.map, List.cons_append, List.filter_cons, List.filter_append,
    Snapshot.filter_isBracket_read hold, Snapshot.filter_isBracket_read_failed hnew, true_and]
  rfl

theorem run_of_read (hold : (Snapshot.read config.readOptions w oldRoot).failure = none)
    (hnew : (Snapshot.read config.readOptions w newRoot).failure = none) :
    let old := (Snapshot.read config.readOptions w oldRoot).table
    let new := (Snapshot.read config.readOptions w newRoot).table
    let text := Report.render config (Report.between old new)
    (run config w oldRoot newRoot).result = .ok text ∧
    (run config w oldRoot newRoot).events.filter isBracket =
      [.runStarted oldRoot newRoot config.dialect, .readStarted oldRoot,
        .readEnded oldRoot old.size old.classes.length, .readStarted newRoot,
        .readEnded newRoot new.size new.classes.length, .compareStarted old.size new.size,
        .compareEnded (Report.between old new).summary, .runEnded text.byteSize] := by
  simp only [run, Report.betweenSnapshots, Progress.traced, hold, hnew, Traced.bind, Traced.map,
    Except.map, Report.betweenTraced, List.cons_append, List.filter_cons, List.filter_append,
    Snapshot.filter_isBracket_read hold, Snapshot.filter_isBracket_read hnew, true_and]
  rfl

end

/-- Every run takes one of the three courses. -/
theorem run_course (config : Config) (w : Workspace) (oldRoot newRoot : Text) :
    Course config w oldRoot newRoot (run config w oldRoot newRoot) := by
  cases hold : (Snapshot.read config.readOptions w oldRoot).failure with
  | some f =>
    obtain ⟨hresult, hevents⟩ := run_of_old_failed newRoot hold
    refine .oldFails f hold hresult ?_ ?_ ?_
    · rw [← brackets_filter_isBracket, hevents]
      rfl
    · rw [← atBracket_filter_isBracket, hevents]
      rfl
    · rw [← failures_filter_isBracket, hevents]
      rfl
  | none =>
    cases hnew : (Snapshot.read config.readOptions w newRoot).failure with
    | some f =>
      obtain ⟨hresult, hevents⟩ := run_of_new_failed hold hnew
      refine .newFails f hold hnew hresult ?_ ?_ ?_
      · rw [← brackets_filter_isBracket, hevents]
        rfl
      · rw [← atBracket_filter_isBracket, hevents]
        rfl
      · rw [← failures_filter_isBracket, hevents]
        rfl
    | none =>
      obtain ⟨hresult, hevents⟩ := run_of_read hold hnew
      refine .succeeds hold hnew ?_ ?_
      · rw [← atBracket_filter_isBracket, hevents]
        rfl
      · constructor
        · exact hresult
        · rw [← brackets_filter_isBracket, hevents]
          rfl
        · rw [← atBracket_filter_isBracket, hevents]
          rfl
        · rw [← atBracket_filter_isBracket, hevents]
          rfl
        · rw [← atBracket_filter_isBracket, hevents]
          rfl
        · rw [← atBracket_filter_isBracket, hevents, Workspace.size_encode]
          rfl

end Surface
