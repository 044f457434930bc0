import Surface.Config.Basic
import Surface.Markdown
import Surface.Report.Between
import Surface.Report.Json
import Surface.Snapshot

/-! # Runs

A run reads the old snapshot, then the new one, compares them and renders the report. A failure
ends it at once, and nothing is rendered then.
-/

namespace Surface

/-- A result together with the events on the way to it. -/
structure Traced (α : Type) where
  result : Except Failure α
  events : List Event

namespace Traced

def bind {α β : Type} (t : Traced α) (next : α → Traced β) : Traced β :=
  match t.result with
  | .error f => ⟨.error f, t.events⟩
  | .ok a =>
    let u := next a
    { u with events := t.events ++ u.events }

def map {α β : Type} (t : Traced α) (g : α → β) : Traced β := ⟨t.result.map g, t.events⟩

end Traced

def Progress.traced (p : Progress) : Traced SymbolTable :=
  match p.failure with
  | some f => ⟨.error f, p.events⟩
  | none => ⟨.ok p.table, p.events⟩

namespace Report

def betweenTraced (old new : SymbolTable) : Traced Report :=
  let report := between old new
  ⟨.ok report, [.compareStarted old.size new.size, .compareEnded report.summary]⟩

/-- The report between the snapshots at two paths. -/
def betweenSnapshots (options : ReadOptions) (w : Workspace) (oldRoot newRoot : Text) :
    Traced Report :=
  (Snapshot.read options w oldRoot).traced.bind fun old =>
    (Snapshot.read options w newRoot).traced.bind fun new =>
      betweenTraced old new

def render (config : Config) (report : Report) : Text :=
  match config.format with
  | .markdown => Markdown.render config.simplifier report
  | .json => report.renderJson

end Report

/-- The rendered report between the snapshots at two paths. -/
def run (config : Config) (w : Workspace) (oldRoot newRoot : Text) : Traced Text :=
  let t := (Report.betweenSnapshots config.readOptions w oldRoot newRoot).map (Report.render config)
  let last := match t.result with
    | .error f => Event.runFailed f.kind
    | .ok output => Event.runEnded output.byteSize
  { t with events := .runStarted oldRoot newRoot config.dialect :: t.events ++ [last] }

end Surface
