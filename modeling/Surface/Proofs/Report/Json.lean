import Surface.Proofs.Json.Printing
import Surface.Proofs.Json.Reading
import Surface.Proofs.OrderedMap
import Surface.Report.Json

/-! # Reports read back from JSON

Each part of a report is read back from its JSON value, whatever texts it holds and however its
changes are filed. So every document with the value of a report gives back the report with its
summary, and so does the printed one.
-/

namespace Surface

theorem SymbolId.ofJson?_toJson (id : SymbolId) : ofJson? id.toJson = some id := by
  obtain ⟨declaringClass, kind, signature⟩ := id
  cases kind <;> rfl

theorem Definition.ofJson?_toJson (d : Definition) : ofJson? d.toJson = some d := rfl

theorem Change.ofJson?_toJson (change : Change) : ofJson? change.toJson = some change := by
  cases change with
  | addition id d =>
    change (SymbolId.ofJson? id.toJson).bind (fun id => some (Change.addition id d)) = _
    rw [SymbolId.ofJson?_toJson, Option.bind_some]
  | deletion id d =>
    change (SymbolId.ofJson? id.toJson).bind (fun id => some (Change.deletion id d)) = _
    rw [SymbolId.ofJson?_toJson, Option.bind_some]
  | modification id old new =>
    change (SymbolId.ofJson? id.toJson).bind (fun id => some (Change.modification id old new)) = _
    rw [SymbolId.ofJson?_toJson, Option.bind_some]

theorem Summary.ofJson?_toJson (s : Summary) : ofJson? s.toJson = some s := rfl

theorem mapM_map_eq_some {α β : Type} {f : α → β} {g : β → Option α}
    (h : ∀ a, g (f a) = some a) (l : List α) : (l.map f).mapM g = some l := by
  induction l with
  | nil => rfl
  | cons a l ih => rw [List.map_cons, List.mapM_cons, h, ih]; rfl

namespace Report

theorem ofList_entries (report : Report) : OrderedMap.ofList report.entries = report :=
  OrderedMap.insertAll_empty (OrderedMap.nodup_keys report) fun _ => Iff.rfl

/-- A class with its changes, as a member of the report's value. -/
def rowToJson (row : Text × List Change) : Text × Json :=
  (row.1, .array (row.2.map Change.toJson))

def rowOfJson? (m : Text × Json) : Option (Text × List Change) := do
  some (m.1, ← (← m.2.items?).mapM Change.ofJson?)

theorem rowOfJson?_rowToJson (row : Text × List Change) :
    rowOfJson? (rowToJson row) = some row := by
  change ((row.2.map Change.toJson).mapM Change.ofJson?).bind (fun chs => some (row.1, chs)) = _
  rw [mapM_map_eq_some Change.ofJson?_toJson]
  rfl

theorem ofJson?_toJson (report : Report) : ofJson? report.toJson = some report := by
  change ((report.entries.map rowToJson).mapM rowOfJson?).bind
    (fun rows => some (OrderedMap.ofList rows)) = _
  rw [mapM_map_eq_some rowOfJson?_rowToJson, Option.bind_some, ofList_entries]

/-- Every document with the value of a report gives back the report with its summary. -/
theorem parseJson?_of_document {report : Report} {t : Text} (h : Json.Document report.document t) :
    parseJson? t = some (report.summary, report) := by
  have hsummary : (report.document.member? "summary").bind Summary.ofJson? =
      some report.summary := rfl
  have hreport : (report.document.member? "report").bind ofJson? = some report :=
    ofJson?_toJson report
  rw [parseJson?, h.parse?]
  change ((report.document.member? "summary").bind Summary.ofJson?).bind (fun s =>
    ((report.document.member? "report").bind ofJson?).bind fun r => some (s, r)) = _
  rw [hsummary, hreport]
  rfl

/-- The text gives back the report, and a summary that counts the changes of each variant and the
classes. -/
def ReadsBack (report : Report) (t : Text) : Prop :=
  ∃ s : Summary, parseJson? t = some (s, report) ∧
    s.additions = report.changes.countP Change.isAddition ∧
    s.deletions = report.changes.countP Change.isDeletion ∧
    s.modifications = report.changes.countP Change.isModification ∧
    s.classes = report.keys.length

theorem readsBack_of_document {report : Report} {t : Text} (h : Json.Document report.document t) :
    report.ReadsBack t :=
  ⟨report.summary, parseJson?_of_document h, rfl, rfl, rfl, by
    rw [OrderedMap.keys, List.length_map]
    rfl⟩

theorem document_renderJson (report : Report) :
    Json.Document report.document report.renderJson := Json.document_print report.document

/-- The printed report is a document, ends in a line feed and gives back the report, as all other
documents with its value do. Reports that differ are printed differently. -/
theorem renderJson_lossless (report : Report) :
    report.renderJson.getLast? = some '\n' ∧
    Json.Document report.document report.renderJson ∧
    report.ReadsBack report.renderJson ∧
    (∀ t, Json.Document report.document t → report.ReadsBack t) ∧
    ∀ other : Report, other.renderJson = report.renderJson ↔ other = report := by
  have hdocument := document_renderJson report
  refine ⟨List.getLast?_concat, hdocument, readsBack_of_document hdocument,
    fun t => readsBack_of_document, fun other => ⟨fun heq => ?_, fun heq => by rw [heq]⟩⟩
  have hother := parseJson?_of_document (document_renderJson other)
  rw [heq, parseJson?_of_document hdocument] at hother
  exact (congrArg Prod.snd (Option.some.inj hother)).symm

end Report
end Surface
