import Surface.Proofs.Declaration.Shape
import Surface.Proofs.Report.WholeClasses
import Surface.Snapshot

/-! # Reports on single lines

What is read off a declaration has its characters from there, but for the labels, which are a few
words, and the mark of an annotation. As a declaration stands on one line, so do the names and the
displays of all symbols of a snapshot, and with them everything in the report between two snapshots.
-/

namespace Surface

open Text

/-- A definition whose texts stand on one line each, with a label that has no colon. -/
structure Definition.IsPlain (d : Definition) : Prop where
  full : '\n' ∉ d.full
  short : '\n' ∉ d.short
  label : '\n' ∉ d.label
  label_colon : ':' ∉ d.label

def Change.definitions : Change → List Definition
  | addition _ d | deletion _ d => [d]
  | modification _ old new => [old, new]

structure Report.IsPlain (report : Report) : Prop where
  classes : ∀ c ∈ report.keys, '\n' ∉ c
  definitions : ∀ ch ∈ report.changes, ∀ d ∈ ch.definitions, d.IsPlain

instance (d : Definition) : Decidable d.IsPlain :=
  decidable_of_iff ('\n' ∉ d.full ∧ '\n' ∉ d.short ∧ '\n' ∉ d.label ∧ ':' ∉ d.label)
    ⟨fun ⟨hfull, hshort, hlabel, hcolon⟩ => ⟨hfull, hshort, hlabel, hcolon⟩,
      fun h => ⟨h.full, h.short, h.label, h.label_colon⟩⟩

instance (report : Report) : Decidable report.IsPlain :=
  decidable_of_iff ((∀ c ∈ report.keys, '\n' ∉ c) ∧
      ∀ ch ∈ report.changes, ∀ d ∈ ch.definitions, d.IsPlain)
    ⟨fun ⟨hclasses, hdefinitions⟩ => ⟨hclasses, hdefinitions⟩,
      fun h => ⟨h.classes, h.definitions⟩⟩

namespace Declaration

/-- A classification that shows nothing but what is in a text. -/
structure ReadOff (t : Text) (c : Classification) : Prop where
  signature : c.signature ⊆ t
  short : c.short ⊆ '@' :: t
  label : c.label ∈ labels

variable {policy : DisplayPolicy} {t : Text} {c : Classification}

theorem ReadOff.mono {u : Text} (h : ReadOff t c) (htu : t ⊆ u) : ReadOff u c :=
  ⟨List.Subset.trans h.signature htu, List.Subset.trans h.short (List.cons_subset_cons _ htu),
    h.label⟩

theorem readOff_of_readDeclarator? (hb : SolidBehind t) (h : readDeclarator? policy t = some c) :
    ReadOff t c := by
  have hsignature : c.signature ⊆ t :=
    ((declares_iff hb policy).2 ⟨c, h, rfl, rfl⟩).isInfix.subset
  refine ⟨hsignature, ?_, label_mem_labels hb h⟩
  obtain ⟨front, hfront, rfl | hinfix⟩ := exists_front_short hb h
  · rw [hfront]
    exact List.cons_subset_cons _ hsignature
  · exact List.Subset.trans hinfix.subset (List.subset_cons_self _ _)

theorem readOff_of_classify? {line : Text} (h : classify? policy line = some c) :
    ReadOff line c :=
  (readOff_of_readDeclarator? (solidBehind_declarator line) h).mono (declarator_isInfix line).subset

end Declaration

theorem Declared.isPlain {display : DisplayPolicy} {id : SymbolId} {d : Definition}
    (h : Declared display id d) : d.IsPlain := by
  have hread := Declaration.readOff_of_classify? h.classified
  have hlabels : ∀ l ∈ Declaration.labels, '\n' ∉ l ∧ ':' ∉ l := by decide
  refine ⟨h.oneLine, fun hshort => ?_, (hlabels _ hread.label).1, (hlabels _ hread.label).2⟩
  rcases List.mem_cons.1 (hread.short hshort) with heq | hfull
  · cases heq
  · exact h.oneLine hfull

theorem Declared.notMem_signature {display : DisplayPolicy} {id : SymbolId} {d : Definition}
    (h : Declared display id d) : '\n' ∉ id.signature := fun hmem =>
  h.oneLine ((Declaration.readOff_of_classify? h.classified).signature hmem)

namespace Reached

variable {allowed : ReadOptions → Prop} {table : SymbolTable}

theorem isPlain (h : Reached allowed table) {id : SymbolId} {d : Definition}
    (hget : table.get? id = some d) : d.IsPlain := by
  obtain ⟨options, -, hd⟩ := h.declared hget
  exact hd.isPlain

/-- The name of a class is the signature of its type. -/
theorem notMem_declaringClass (h : Reached allowed table) {id : SymbolId}
    (hid : table.contains id = true) : '\n' ∉ id.declaringClass := by
  obtain ⟨options, d, -, hdeclared⟩ := h.declared_ofClass hid
  exact hdeclared.notMem_signature

end Reached

theorem Snapshot.reached_readFile {options : ReadOptions} {table : SymbolTable}
    (h : Reached (· = options) table) (file : SourceFile) :
    Reached (· = options) (readFile options file table).table := by
  unfold readFile
  cases file.text with
  | error e => exact h
  | ok text =>
    dsimp only
    rw [Progress.table_emit]
    exact h.read _ rfl

theorem Snapshot.reached_read (options : ReadOptions) (w : Workspace) (root : Text) :
    Reached (· = options) (read options w root).table := by
  unfold read readRoot
  cases rootProblem? w root with
  | some reason => exact .empty
  | none =>
    refine Progress.andThen_preserves (I := Reached (· = options)) ?_ fun _ h => h
    exact Progress.foldl_preserves .empty fun file _ table h => reached_readFile h file

/-- A change is made of the definitions that it is between. -/
theorem Change.eq_some_of_mem_definitions {id : SymbolId} {old new : Option Definition}
    {ch : Change} (h : ofDefinitions? id old new = some ch) {d : Definition}
    (hd : d ∈ ch.definitions) : old = some d ∨ new = some d := by
  cases old with
  | none =>
    cases new with
    | none => cases h
    | some b =>
      cases h
      exact .inr (congrArg some (List.mem_singleton.1 hd).symm)
  | some a =>
    cases new with
    | none =>
      cases h
      exact .inl (congrArg some (List.mem_singleton.1 hd).symm)
    | some b =>
      rw [ofDefinitions?] at h
      split at h <;> cases h
      rcases List.mem_pair.1 hd with rfl | rfl
      · exact .inl rfl
      · exact .inr rfl

namespace Report

variable {allowed : ReadOptions → Prop} {old new : SymbolTable}

theorem isPlain_of_reached {allowed' : ReadOptions → Prop} (hold : Reached allowed old)
    (hnew : Reached allowed' new) : (between old new).IsPlain := by
  constructor
  · intro c hc
    obtain ⟨ch, hch⟩ := exists_mem_changesFor hc
    have hfiled := filed_between old new
    obtain rfl := hfiled.changesFor hch
    rcases contains_of_mem_changes_between (hfiled.mem_changes_iff.2 hch) with hid | hid
    · exact hold.notMem_declaringClass hid
    · exact hnew.notMem_declaringClass hid
  · intro ch hch d hd
    rcases Change.eq_some_of_mem_definitions (mem_changes_between.1 hch) hd with hget | hget
    · exact hold.isPlain hget
    · exact hnew.isPlain hget

/-- Whatever two snapshots hold, and however they are read, the report between them stands on
single lines. -/
theorem isPlain_between_snapshots (options options' : ReadOptions) (w w' : Workspace)
    (root root' : Text) :
    (between (Snapshot.read options w root).table
      (Snapshot.read options' w' root').table).IsPlain :=
  isPlain_of_reached (Snapshot.reached_read options w root)
    (Snapshot.reached_read options' w' root')

end Report
end Surface
