import Surface.Proofs.Markdown.Sections
import Surface.Proofs.Report.Exactness
import Surface.Proofs.SymbolTable

/-! # Classes are compared one by one

What a report says of a class comes from the symbols of that class alone. The three passes run over
all classes at once, but what is left of them for one class is what they find in the two tables cut
down to it. So a report is put together from the reports of single classes, and whatever happens to
other classes leaves the changes of a class, and its section, as they are.
-/

namespace Surface

namespace SymbolTable

/-- The symbols of one class. -/
def restrict (table : SymbolTable) (c : Text) : SymbolTable :=
  table.filter fun id => id.declaringClass = c

/-- The two tables may differ in symbols of other classes only. -/
def AgreesOn (c : Text) (table table' : SymbolTable) : Prop :=
  ∀ id, id.declaringClass = c → table.get? id = table'.get? id

variable {table table' : SymbolTable} {c : Text} {id : SymbolId}

theorem entries_restrict (table : SymbolTable) (c : Text) :
    (table.restrict c).entries = table.entries.filter fun e => e.1.declaringClass = c := rfl

theorem get?_restrict (table : SymbolTable) (c : Text) (id : SymbolId) :
    (table.restrict c).get? id = if id.declaringClass = c then table.get? id else none := by
  rw [restrict, OrderedMap.get?_filter]
  simp

theorem get?_restrict_of_eq (h : id.declaringClass = c) :
    (table.restrict c).get? id = table.get? id := by
  rw [get?_restrict, if_pos h]

theorem contains_restrict_of_eq (h : id.declaringClass = c) :
    (table.restrict c).contains id = table.contains id := by
  rw [OrderedMap.contains, get?_restrict_of_eq h, OrderedMap.contains]

theorem AgreesOn.restrict_eq (h : table.AgreesOn c table') :
    table.restrict c = table'.restrict c := by
  apply OrderedMap.ext
  intro id
  rw [get?_restrict, get?_restrict]
  by_cases hid : id.declaringClass = c
  · simp [hid, h id hid]
  · simp [hid]

theorem agreesOn_insert (h : id.declaringClass ≠ c) (table : SymbolTable) (d : Definition) :
    table.AgreesOn c (table.insert id d) := by
  intro id' hid'
  have hne : id' ≠ id := by
    rintro rfl
    exact h hid'
  rw [OrderedMap.get?_insert, if_neg hne]

theorem agreesOn_erase (h : id.declaringClass ≠ c) (table : SymbolTable) :
    table.AgreesOn c (table.erase id) := by
  intro id' hid'
  have hne : id' ≠ id := by
    rintro rfl
    exact h hid'
  rw [OrderedMap.get?_erase, if_neg hne]

end SymbolTable

namespace Report

/-- All that several reports say. -/
def union (reports : List Report) : Report := OrderedMap.ofList (reports.flatMap OrderedMap.entries)

variable {old new old' new' : SymbolTable} {c : Text}

theorem onesided_restrict {make : SymbolId → Definition → Change}
    (hmake : ∀ id d, (make id d).id = id) (here there : SymbolTable) (c : Text) :
    (((here.restrict c).entries.filter fun e => !(there.restrict c).contains e.1).map
      fun e => make e.1 e.2) =
      ((here.entries.filter fun e => !there.contains e.1).map fun e => make e.1 e.2).filter
        fun ch => c = ch.id.declaringClass := by
  rw [List.filter_map, SymbolTable.entries_restrict, List.filter_filter, List.filter_filter]
  congr 1
  apply List.filter_congr
  intro e _
  by_cases hc : e.1.declaringClass = c
  · simp [hmake, hc, SymbolTable.contains_restrict_of_eq hc]
  · simp [hmake, hc, Ne.symm hc]

theorem additions_restrict (old new : SymbolTable) (c : Text) :
    additions (old.restrict c) (new.restrict c) =
      (additions old new).filter fun ch => c = ch.id.declaringClass :=
  onesided_restrict (fun _ _ => rfl) new old c

theorem deletions_restrict (old new : SymbolTable) (c : Text) :
    deletions (old.restrict c) (new.restrict c) =
      (deletions old new).filter fun ch => c = ch.id.declaringClass :=
  onesided_restrict (fun _ _ => rfl) old new c

theorem modifications_restrict (old new : SymbolTable) (c : Text) :
    modifications (old.restrict c) (new.restrict c) =
      (modifications old new).filter fun ch => c = ch.id.declaringClass := by
  rw [modifications, modifications, List.filter_filterMap, SymbolTable.entries_restrict,
    List.filterMap_filter]
  apply List.filterMap_congr
  intro e _
  have hid : ∀ ch, modification? new e.1 e.2 = some ch → ch.id = e.1 := fun ch =>
    id_of_modification?
  by_cases hc : e.1.declaringClass = c
  · have hsame : modification? (new.restrict c) e.1 e.2 = modification? new e.1 e.2 := by
      simp [modification?, SymbolTable.get?_restrict_of_eq hc]
    cases hm : modification? new e.1 e.2 with
    | none => simp [hsame, hm]
    | some ch => simp [hsame, hm, Option.filter, hid ch hm, hc]
  · cases hm : modification? new e.1 e.2 with
    | none => simp [hm, hc]
    | some ch => simp [hm, Option.filter, hid ch hm, hc, Ne.symm hc]

theorem between_restrict (old new : SymbolTable) (c : Text) :
    between (old.restrict c) (new.restrict c) = ofChanges
      ((additions old new ++ deletions old new ++ modifications old new).filter
        fun ch => c = ch.id.declaringClass) := by
  rw [between, additions_restrict, deletions_restrict, modifications_restrict, List.filter_append,
    List.filter_append]

theorem changesFor_between_restrict (old new : SymbolTable) (c c' : Text) :
    (between (old.restrict c) (new.restrict c)).changesFor c' =
      if c' = c then (between old new).changesFor c else [] := by
  rw [between_restrict, between, changesFor_ofChanges, changesFor_ofChanges, List.filter_filter]
  by_cases hc : c' = c
  · simp [hc]
  · rw [if_neg hc, List.filter_eq_nil_iff]
    intro ch _
    grind

theorem get?_between_restrict (old new : SymbolTable) (c c' : Text) :
    (between (old.restrict c) (new.restrict c)).get? c' =
      if c' = c then (between old new).get? c else none := by
  rw [(filed_between _ _).get?_eq, (filed_between old new).get?_eq, changesFor_between_restrict]
  by_cases hc : c' = c <;> simp [hc]

theorem changes_between_restrict (old new : SymbolTable) (c : Text) :
    (between (old.restrict c) (new.restrict c)).changes = (between old new).changesFor c := by
  have hentries : (between (old.restrict c) (new.restrict c)).entries =
      (((between old new).get? c).map fun changes => (c, changes)).toList := by
    have hown := get?_between_restrict old new c c
    rw [if_pos rfl] at hown
    rw [← hown, ← OrderedMap.filter_key_entries, eq_comm, List.filter_eq_self]
    intro e he
    have hget := OrderedMap.mem_entries_iff.1 he
    rw [get?_between_restrict] at hget
    by_cases hc : e.1 = c
    · simp [hc]
    · simp [hc] at hget
  rw [changes, hentries, changesFor]
  cases (between old new).get? c <;> simp

/-- Rows of one key that agree are as good as one of them. -/
theorem get?_union {reports : List Report} {c : Text} {changes? : Option (List Change)}
    (h : ∀ changes, (∃ report ∈ reports, report.get? c = some changes) ↔
      changes? = some changes) : (union reports).get? c = changes? := by
  have hrow : ∀ row ∈ (reports.flatMap OrderedMap.entries).filter fun row => row.1 = c,
      changes? = some row.2 := by
    intro row hrow
    obtain ⟨hmem, hc⟩ := List.mem_filter.1 hrow
    obtain ⟨report, hreport, hentry⟩ := List.mem_flatMap.1 hmem
    have hget := OrderedMap.mem_entries_iff.1 hentry
    rw [of_decide_eq_true hc] at hget
    exact (h row.2).1 ⟨report, hreport, hget⟩
  refine (OrderedMap.get?_insertAll ∅ _ c).trans ?_
  cases hlast : ((reports.flatMap OrderedMap.entries).filter fun row => row.1 = c).getLast? with
  | some row => exact (hrow row (List.mem_of_getLast? hlast)).symm
  | none =>
    rw [List.getLast?_eq_none_iff, List.filter_eq_nil_iff] at hlast
    cases hchanges : changes? with
    | none => rfl
    | some changes =>
      obtain ⟨report, hreport, hget⟩ := (h changes).2 hchanges
      have hmem := List.mem_flatMap.2 ⟨report, hreport, OrderedMap.mem_entries_iff.2 hget⟩
      exact absurd rfl (of_decide_eq_false (Bool.eq_false_iff.2 (hlast (c, changes) hmem)))

theorem mem_classes_of_get? {changes : List Change} (h : (between old new).get? c = some changes) :
    c ∈ old.classes ∨ c ∈ new.classes := by
  have hne : (between old new).changesFor c ≠ [] := by
    rw [← (filed_between old new).contains_iff, OrderedMap.contains, h]
    rfl
  obtain ⟨ch, hch⟩ := List.exists_mem_of_ne_nil _ hne
  have hclass := (filed_between old new).changesFor hch
  subst hclass
  rw [SymbolTable.mem_classes_iff, SymbolTable.mem_classes_iff]
  rcases contains_of_mem_changes_between ((filed_between old new).mem_changes_iff.2 hch) with h | h
  · exact .inl ⟨ch.id, h, rfl⟩
  · exact .inr ⟨ch.id, h, rfl⟩

theorem between_eq_union {classes : List Text} (hold : old.classes ⊆ classes)
    (hnew : new.classes ⊆ classes) : between old new =
      union (classes.map fun c => between (old.restrict c) (new.restrict c)) := by
  apply OrderedMap.ext
  intro c
  symm
  apply get?_union
  intro changes
  simp only [List.mem_map, exists_exists_and_eq_and, get?_between_restrict]
  constructor
  · intro h
    obtain ⟨c', -, hget⟩ := h
    by_cases hc : c = c'
    · subst hc
      simpa using hget
    · simp [hc] at hget
  · intro h
    have hmem : c ∈ classes := (mem_classes_of_get? h).elim (fun hc => hold hc) fun hc => hnew hc
    exact ⟨c, hmem, by simp [h]⟩

theorem get?_between_congr (hold : old.AgreesOn c old') (hnew : new.AgreesOn c new') :
    (between old' new').get? c = (between old new).get? c := by
  have hthere := get?_between_restrict old new c c
  have hhere := get?_between_restrict old' new' c c
  rw [hold.restrict_eq, hnew.restrict_eq] at hthere
  rw [if_pos rfl] at hthere hhere
  rw [← hhere, hthere]

open Markdown in
theorem sectionOf_congr {report report' : Report} (h : report'.get? c = report.get? c)
    (s : Simplifier) : sectionOf s report' c = sectionOf s report c ∧
      (c ∈ classOrder s report' ↔ c ∈ classOrder s report) := by
  rw [mem_classOrder_iff, mem_classOrder_iff]
  simp [sectionOf, changesFor, OrderedMap.contains, h]

open Markdown in
/-- The changes of a class are all that is reported of its own symbols, the report is the reports of
single classes taken together, and its text is their sections one after another. Where the symbols
of a class stay the same, so do its changes and its section, whatever happens to other classes. -/
theorem between_local (old new : SymbolTable) :
    (∀ c, (between old new).changesFor c =
      (between (old.restrict c) (new.restrict c)).changes) ∧
    (∀ classes, old.classes ⊆ classes → new.classes ⊆ classes → between old new =
      union (classes.map fun c => between (old.restrict c) (new.restrict c))) ∧
    (∀ s, (classOrder s (between old new)).Perm (between old new).keys ∧
      render s (between old new) =
        (classOrder s (between old new)).flatMap (sectionOf s (between old new))) ∧
    ∀ c old' new', old.AgreesOn c old' → new.AgreesOn c new' →
      (between old' new').get? c = (between old new).get? c ∧
      ∀ s, sectionOf s (between old' new') c = sectionOf s (between old new) c ∧
        (c ∈ classOrder s (between old' new') ↔ c ∈ classOrder s (between old new)) := by
  refine ⟨fun c => (changes_between_restrict old new c).symm, fun classes => between_eq_union,
    fun s => ⟨perm_classOrder s _, render_eq s _⟩, ?_⟩
  intro c old' new' hold hnew
  have hget := get?_between_congr hold hnew
  exact ⟨hget, sectionOf_congr hget⟩

def lampBulb : SymbolId := ⟨"Lamp".toList, .field, "bulb".toList⟩

def cablePlug : SymbolId := ⟨"Cable".toList, .method, "plug()".toList⟩

def cableLength : SymbolId := ⟨"Cable".toList, .field, "length".toList⟩

def oldLamp : SymbolTable := .ofList
  [(lampBulb, ⟨"int bulb", "int bulb", "field"⟩),
    (cablePlug, ⟨"void plug()", "void plug()", "method"⟩)]

def newLamp : SymbolTable := .ofList
  [(lampBulb, ⟨"long bulb", "long bulb", "field"⟩)]

open Markdown in
theorem between_local_lamps :
    let old := oldLamp.erase cablePlug
    let new := newLamp.insert cableLength ⟨"int length", "int length", "field"⟩
    let lamp := "Lamp".toList
    (oldLamp.AgreesOn lamp old ∧ newLamp.AgreesOn lamp new) ∧
    (oldLamp.classes ⊆ [lamp, "Cable".toList] ∧ newLamp.classes ⊆ [lamp, "Cable".toList]) ∧
    between oldLamp newLamp = union ([lamp, "Cable".toList].map fun c =>
      between (oldLamp.restrict c) (newLamp.restrict c)) ∧
    between old new ≠ between oldLamp newLamp ∧
    (between old new).get? lamp = (between oldLamp newLamp).get? lamp ∧
    ∀ s, sectionOf s (between old new) lamp = sectionOf s (between oldLamp newLamp) lamp ∧
      (lamp ∈ classOrder s (between old new) ↔ lamp ∈ classOrder s (between oldLamp newLamp)) := by
  intro old new lamp
  have hold : oldLamp.AgreesOn lamp old := SymbolTable.agreesOn_erase (by decide) oldLamp
  have hnew : newLamp.AgreesOn lamp new := SymbolTable.agreesOn_insert (by decide) newLamp _
  have holdClasses : oldLamp.classes ⊆ [lamp, "Cable".toList] := by decide +kernel
  have hnewClasses : newLamp.classes ⊆ [lamp, "Cable".toList] := by decide +kernel
  obtain ⟨-, hunion, -, helsewhere⟩ := between_local oldLamp newLamp
  exact ⟨⟨hold, hnew⟩, ⟨holdClasses, hnewClasses⟩, hunion _ holdClasses hnewClasses,
    by decide +kernel, helsewhere lamp old new hold hnew⟩

end Report
end Surface
