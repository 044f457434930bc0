import Surface.Json.Printer
import Surface.Json.Reader
import Surface.Report.Basic

/-! # Reports as JSON

A report is printed with its summary. Names stay fully qualified, and every part of the report can
be read back.
-/

namespace Surface

def SymbolId.toJson (id : SymbolId) : Json :=
  .object [("class", .text id.declaringClass), ("kind", .text (Choice.name id.kind)),
    ("signature", .text id.signature)]

def Definition.toJson (d : Definition) : Json :=
  .object [("full", .text d.full), ("short", .text d.short), ("kind_label", .text d.label)]

def Change.toJson (change : Change) : Json :=
  .object (("change".toList, Json.text change.variantName) :: ("id".toList, change.id.toJson) ::
    match change with
    | addition _ d | deletion _ d => [("definition".toList, d.toJson)]
    | modification _ old new => [("old".toList, old.toJson), ("new".toList, new.toJson)])

def Summary.toJson (s : Summary) : Json :=
  .object [("additions", .number s.additions), ("deletions", .number s.deletions),
    ("modifications", .number s.modifications), ("classes", .number s.classes)]

namespace Report

def toJson (report : Report) : Json :=
  .object [("classes", .object (report.entries.map fun (c, changes) =>
    (c, .array (changes.map Change.toJson))))]

/-- The printed report with its summary in front. -/
def document (report : Report) : Json :=
  .object [("summary", report.summary.toJson), ("report", report.toJson)]

def renderJson (report : Report) : Text := report.document.print

end Report

def SymbolId.ofJson? (json : Json) : Option SymbolId := do
  let declaringClass ← (← json.member? "class").text?
  let kind ← Choice.ofName? (← (← json.member? "kind").text?)
  let signature ← (← json.member? "signature").text?
  some ⟨declaringClass, kind, signature⟩

def Definition.ofJson? (json : Json) : Option Definition := do
  let full ← (← json.member? "full").text?
  let short ← (← json.member? "short").text?
  let label ← (← json.member? "kind_label").text?
  some ⟨full, short, label⟩

def Change.ofJson? (json : Json) : Option Change := do
  let variant ← (← json.member? "change").text?
  let id ← SymbolId.ofJson? (← json.member? "id")
  if variant = "addition" then
    some (.addition id (← Definition.ofJson? (← json.member? "definition")))
  else if variant = "deletion" then
    some (.deletion id (← Definition.ofJson? (← json.member? "definition")))
  else if variant = "modification" then
    some (.modification id (← Definition.ofJson? (← json.member? "old"))
      (← Definition.ofJson? (← json.member? "new")))
  else none

def Summary.ofJson? (json : Json) : Option Summary := do
  let additions ← (← json.member? "additions").number?
  let deletions ← (← json.member? "deletions").number?
  let modifications ← (← json.member? "modifications").number?
  let classes ← (← json.member? "classes").number?
  some ⟨additions, deletions, modifications, classes⟩

def Report.ofJson? (json : Json) : Option Report := do
  let classes ← (← json.member? "classes").members?
  let rows ← classes.mapM fun (c, changes) => do
    some (c, ← (← changes.items?).mapM Change.ofJson?)
  some (OrderedMap.ofList rows)

/-- The summary and the report in a printed document. -/
def Report.parseJson? (t : Text) : Option (Summary × Report) := do
  let document ← Json.parse? t
  some (← Summary.ofJson? (← document.member? "summary"),
    ← Report.ofJson? (← document.member? "report"))

end Surface
