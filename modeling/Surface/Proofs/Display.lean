import Surface.Proofs.Declaration.Grammar
import Surface.Proofs.Listing.Reached
import Surface.Run

/-! # What the display policy decides

A display policy decides how definitions are shown, and nothing else. What lines, listings and
snapshots define, where reading them fails and what has changed between them is the same under
every display policy: each step of reading, taken under two policies, keeps two tables that differ
in the display only, and the report between such tables differs in the display only.
-/

namespace Surface

/-- What a definition says apart from how it is shown. -/
def Definition.bare (d : Definition) : Definition := { d with short := [], label := [] }

def SymbolTable.bare (table : SymbolTable) : SymbolTable := table.mapValues Definition.bare

def Change.bare : Change → Change
  | addition id d => addition id d.bare
  | deletion id d => deletion id d.bare
  | modification id old new => modification id old.bare new.bare

def Report.bare (report : Report) : Report := report.mapValues (List.map Change.bare)

/-- The kind and the signature are the same, and so is the label unless it is that of a type. -/
structure Classification.Alike (c d : Classification) : Prop where
  kind : c.kind = d.kind
  signature : c.signature = d.signature
  label : c.kind ≠ .type → c.label = d.label

structure Progress.Alike (p q : Progress) : Prop where
  table : p.table.bare = q.table.bare
  events : p.events = q.events
  failure : p.failure = q.failure

structure Report.Alike (r s : Report) : Prop where
  bare : r.bare = s.bare
  summary : r.summary = s.summary

/-- The events are the same, and either the failure is or the results are related. -/
inductive Traced.Rel {α β : Type} (R : α → β → Prop) : Traced α → Traced β → Prop
  | error (f : Failure) (events : List Event) : Rel R ⟨.error f, events⟩ ⟨.error f, events⟩
  | ok {a : α} {b : β} (events : List Event) : R a b → Rel R ⟨.ok a, events⟩ ⟨.ok b, events⟩

variable {p q : DisplayPolicy} {s t : SymbolTable}

namespace Declaration

theorem label_eq_of_readDeclarator? {b : Text} {c : Classification} (hb : Text.SolidBehind b)
    (h : readDeclarator? p b = some c) (hkind : c.kind ≠ .type) : c.label = c.kind.label := by
  rcases readDeclarator?_eq_some_iff.1 h with htype | ⟨-, hmethod | ⟨-, hconstructor | ⟨-, hfield⟩⟩⟩
  · exact absurd (declaresType_of_readType? htype).1 hkind
  · obtain ⟨before, signature, -, rfl⟩ := readMethod?_eq_some_iff.1 hmethod
    rfl
  · obtain ⟨signature, -, rfl⟩ := readConstructor?_eq_some_iff.1 hconstructor
    rfl
  · obtain ⟨name, -, rfl⟩ := (readField?_eq_some_iff hb).1 hfield
    rfl

/-- What a line declares does not depend on the policy, because the grammar does not. -/
theorem exists_alike_of_classify {line : Text} {c : Classification} (q : DisplayPolicy)
    (h : classify p line = .ok c) : ∃ d, classify q line = .ok d ∧ c.Alike d := by
  have hb := solidBehind_declarator line
  have hc := classify_eq_ok_iff.1 h
  have hdeclares := (declares_iff hb p).2 ⟨c, hc, rfl, rfl⟩
  obtain ⟨d, hd, hkind, hsignature⟩ := (declares_iff hb q).1 hdeclares
  refine ⟨d, classify_eq_ok_iff.2 hd, hkind.symm, hsignature.symm, fun hne => ?_⟩
  have hlabel := label_eq_of_readDeclarator? hb hd (hkind ▸ hne)
  rw [label_eq_of_readDeclarator? hb hc hne, hlabel, hkind]

end Declaration

/-- Both policies accept a line, or both refuse it with the same cause. -/
theorem Listing.classifyLine_alike (p q : DisplayPolicy) (source : Text) (n : Nat) (raw : Text) :
    (∃ f, classifyLine p source n raw = .error f ∧ classifyLine q source n raw = .error f) ∨
    ∃ full c d, classifyLine p source n raw = .ok (full, c) ∧
      classifyLine q source n raw = .ok (full, d) ∧ c.Alike d := by
  cases hp : Declaration.classify p (Declaration.textOf raw) with
  | ok c =>
    obtain ⟨d, hq, halike⟩ := Declaration.exists_alike_of_classify q hp
    exact .inr ⟨_, c, d, classifyLine_of_ok hp source n, classifyLine_of_ok hq source n, halike⟩
  | error cause =>
    cases hq : Declaration.classify q (Declaration.textOf raw) with
    | ok d =>
      obtain ⟨c, hc, -⟩ := Declaration.exists_alike_of_classify p hq
      rw [hp] at hc
      cases hc
    | error other =>
      have hcause : other = cause := by
        rw [(Declaration.classify_eq_error_iff.1 hp).2, (Declaration.classify_eq_error_iff.1 hq).2]
      exact .inl ⟨_, classifyLine_of_error hp source n,
        classifyLine_of_error (hcause ▸ hq) source n⟩

namespace SymbolTable

theorem bare_insert (table : SymbolTable) (id : SymbolId) (d : Definition) :
    SymbolTable.bare (table.insert id d) = table.bare.insert id d.bare :=
  OrderedMap.mapValues_insert Definition.bare table id d

/-- Without the display a table still has all its identities. -/
theorem keys_eq_of_bare (h : s.bare = t.bare) : s.keys = t.keys :=
  calc s.keys = s.bare.keys := (OrderedMap.keys_mapValues Definition.bare s).symm
    _ = t.bare.keys := by rw [h]
    _ = t.keys := OrderedMap.keys_mapValues Definition.bare t

theorem contains_eq_of_bare (h : s.bare = t.bare) (id : SymbolId) :
    s.contains id = t.contains id := by
  rw [Bool.eq_iff_iff, ← OrderedMap.mem_keys_iff, ← OrderedMap.mem_keys_iff, keys_eq_of_bare h]

theorem size_eq_of_bare (h : s.bare = t.bare) : s.size = t.size := by
  have hlength := congrArg List.length (keys_eq_of_bare h)
  rwa [OrderedMap.keys, OrderedMap.keys, List.length_map, List.length_map] at hlength

theorem classes_eq_of_bare (h : s.bare = t.bare) : s.classes = t.classes := by
  rw [classes, classes, keys_eq_of_bare h]

end SymbolTable

namespace Progress

variable {a b : Progress} {step next : SymbolTable → Progress}

theorem Alike.of_table (h : s.bare = t.bare) (events : List Event) (failure : Option Failure) :
    Alike ⟨s, events, failure⟩ ⟨t, events, failure⟩ := ⟨h, rfl, rfl⟩

theorem Alike.andThen (h : Alike a b)
    (hstep : ∀ s t : SymbolTable, s.bare = t.bare → (step s).Alike (next t)) :
    (a.andThen step).Alike (b.andThen next) := by
  cases ha : a.failure with
  | some f =>
    rw [andThen_failed ha, andThen_failed (h.failure ▸ ha)]
    exact h
  | none =>
    have hb : b.failure = none := h.failure ▸ ha
    have hnext := hstep a.table b.table h.table
    simp only [Progress.andThen, ha, hb]
    exact ⟨hnext.table, by rw [h.events, hnext.events], hnext.failure⟩

theorem Alike.foldl {α : Type} {step next : α → SymbolTable → Progress} (h : Alike a b)
    (hstep : ∀ x (s t : SymbolTable), s.bare = t.bare → (step x s).Alike (next x t))
    (xs : List α) :
    (xs.foldl (fun p x => p.andThen (step x)) a).Alike
      (xs.foldl (fun p x => p.andThen (next x)) b) := by
  induction xs generalizing a b with
  | nil => exact h
  | cons x xs ih => exact ih (h.andThen (hstep x))

end Progress

namespace Listing

variable {source declaringClass full : Text} {n : Nat} {c d : Classification}
  {duplicates : DuplicatePolicy}

theorem define_alike (h : s.bare = t.bare) (hcd : c.Alike d) :
    (define duplicates source n declaringClass full c s).Alike
      (define duplicates source n declaringClass full d t) := by
  have hcontains := SymbolTable.contains_eq_of_bare h ⟨declaringClass, d.kind, d.signature⟩
  unfold define SymbolTable.define
  rw [hcd.kind, hcd.signature, hcontains]
  by_cases hdup : duplicates = .fail ∧ t.contains ⟨declaringClass, d.kind, d.signature⟩ = true
  · rw [if_pos hdup, if_pos hdup]
    exact .of_table h _ _
  · rw [if_neg hdup, if_neg hdup]
    have htable : SymbolTable.bare
        (s.insert ⟨declaringClass, d.kind, d.signature⟩ ⟨full, c.short, c.label⟩) =
        SymbolTable.bare
          (t.insert ⟨declaringClass, d.kind, d.signature⟩ ⟨full, d.short, d.label⟩) := by
      rw [SymbolTable.bare_insert, SymbolTable.bare_insert, h]
      rfl
    unfold OrderedMap.contains at hcontains
    cases hs : s.get? ⟨declaringClass, d.kind, d.signature⟩ with
    | none =>
      rw [hs, Option.isSome_none, eq_comm, Option.isSome_eq_false_iff, Option.isNone_iff_eq_none]
        at hcontains
      rw [hcontains]
      exact .of_table htable _ _
    | some old =>
      rw [hs, Option.isSome_some, eq_comm, Option.isSome_iff_exists] at hcontains
      obtain ⟨other, hother⟩ := hcontains
      rw [hother]
      exact .of_table htable _ _

theorem readMember_alike (raw : Text × Nat) (h : s.bare = t.bare) :
    (readMember ⟨p, duplicates⟩ source declaringClass raw s).Alike
      (readMember ⟨q, duplicates⟩ source declaringClass raw t) := by
  rcases classifyLine_alike p q source raw.2 raw.1 with ⟨f, hp, hq⟩ | ⟨full, c, d, hp, hq, hcd⟩
  · simp only [readMember, hp, hq]
    exact .of_table h _ _
  · simp only [readMember, hp, hq]
    exact define_alike h hcd

/-- The failure of a header that is no type has its label, which is the same under all policies. -/
theorem readDeclarations_alike (ls : List Text) (h : s.bare = t.bare) :
    (readDeclarations ⟨p, duplicates⟩ source s ls).Alike
      (readDeclarations ⟨q, duplicates⟩ source t ls) := by
  cases ls with
  | nil => exact .of_table h _ _
  | cons header members =>
    rcases classifyLine_alike p q source 1 header with ⟨f, hp, hq⟩ | ⟨full, c, d, hp, hq, hcd⟩
    · simp only [readDeclarations, hp, hq]
      exact .of_table h _ _
    · simp only [readDeclarations, hp, hq]
      by_cases hkind : c.kind = .type
      · have hkind' : d.kind = .type := hcd.kind ▸ hkind
        simp only [hkind, hkind', if_true, hcd.signature]
        refine (define_alike h hcd).andThen fun s t h => ?_
        exact (Progress.Alike.of_table h _ _).foldl (fun raw s t h => readMember_alike raw h) _
      · have hkind' : ¬ d.kind = .type := hcd.kind ▸ hkind
        simp only [hkind', if_false, hcd.label hkind, hcd.kind, hcd.signature]
        exact .of_table h _ _

theorem read_alike (l : Listing) (h : s.bare = t.bare) :
    (l.read ⟨p, duplicates⟩ s).Alike (l.read ⟨q, duplicates⟩ t) :=
  readDeclarations_alike l.declarations h

theorem readAll_alike (listings : List Listing) (h : s.bare = t.bare) :
    (readAll ⟨p, duplicates⟩ listings s).Alike (readAll ⟨q, duplicates⟩ listings t) :=
  (Progress.Alike.of_table h _ _).foldl (fun l _ _ h => l.read_alike h) listings

end Listing

namespace Snapshot

variable {duplicates : DuplicatePolicy}

theorem readFile_alike (file : SourceFile) (h : s.bare = t.bare) :
    (readFile ⟨p, duplicates⟩ file s).Alike (readFile ⟨q, duplicates⟩ file t) := by
  unfold readFile
  cases file.text with
  | error e => exact .of_table h _ _
  | ok text =>
    exact (Listing.read_alike ⟨file.path, text⟩ h).andThen fun _ _ h => .of_table h _ _

theorem readWalk_alike (walk : Walk) :
    (readWalk ⟨p, duplicates⟩ walk).Alike (readWalk ⟨q, duplicates⟩ walk) := by
  have hfiles : (readFiles ⟨p, duplicates⟩ walk.files ∅).Alike
      (readFiles ⟨q, duplicates⟩ walk.files ∅) :=
    (Progress.Alike.of_table rfl _ _).foldl (fun file _ _ h => readFile_alike file h) _
  exact hfiles.andThen fun _ _ h => .of_table h _ _

theorem read_alike (w : Workspace) (root : Text) :
    (read ⟨p, duplicates⟩ w root).Alike (read ⟨q, duplicates⟩ w root) := by
  have hroot : (readRoot ⟨p, duplicates⟩ w root).Alike (readRoot ⟨q, duplicates⟩ w root) := by
    unfold readRoot
    cases rootProblem? w root with
    | some reason => exact .of_table rfl _ _
    | none => exact readWalk_alike _
  unfold read
  refine ⟨hroot.table, ?_, hroot.failure⟩
  simp only [hroot.events, hroot.failure, SymbolTable.size_eq_of_bare hroot.table,
    SymbolTable.classes_eq_of_bare hroot.table]

end Snapshot

namespace Report

theorem bare_push (report : Report) (ch : Change) :
    (report.push ch).bare = report.bare.push ch.bare := by
  have hid : ch.bare.id = ch.id := by cases ch <;> rfl
  have hchanges : report.bare.changesFor ch.id.declaringClass =
      (report.changesFor ch.id.declaringClass).map Change.bare := by
    unfold changesFor bare
    rw [OrderedMap.get?_mapValues]
    cases report.get? ch.id.declaringClass <;> rfl
  simp only [push, hid, hchanges]
  refine (OrderedMap.mapValues_insert _ _ _ _).trans ?_
  rw [List.map_append]
  rfl

theorem bare_ofChanges (changes : List Change) :
    (ofChanges changes).bare = ofChanges (changes.map Change.bare) := by
  have run : ∀ report : Report, (changes.foldl push report).bare =
      (changes.map Change.bare).foldl push report.bare := by
    induction changes with
    | nil => exact fun _ => rfl
    | cons ch rest ih => exact fun report => (ih _).trans (by rw [bare_push]; rfl)
  exact run ∅

theorem map_bare_additions (old new : SymbolTable) :
    (additions old new).map Change.bare = additions old.bare new.bare := by
  simp only [additions, SymbolTable.bare, OrderedMap.entries_mapValues, List.filter_map,
    List.map_map, OrderedMap.contains_mapValues]
  rfl

theorem map_bare_deletions (old new : SymbolTable) :
    (deletions old new).map Change.bare = deletions old.bare new.bare := by
  simp only [deletions, SymbolTable.bare, OrderedMap.entries_mapValues, List.filter_map,
    List.map_map, OrderedMap.contains_mapValues]
  rfl

theorem map_bare_modification? (new : SymbolTable) (id : SymbolId) (d : Definition) :
    (modification? new id d).map Change.bare = modification? new.bare id d.bare := by
  simp only [modification?, SymbolTable.bare, OrderedMap.get?_mapValues]
  cases new.get? id with
  | none => rfl
  | some d' =>
    by_cases hfull : d.full = d'.full
    · simp [hfull, Definition.bare]
    · simp [hfull, Definition.bare, Change.bare]

theorem map_bare_modifications (old new : SymbolTable) :
    (modifications old new).map Change.bare = modifications old.bare new.bare := by
  simp only [modifications, List.map_filterMap, map_bare_modification?, SymbolTable.bare,
    OrderedMap.entries_mapValues, List.filterMap_map]
  rfl

/-- The report compares full declarations only. -/
theorem bare_between (old new : SymbolTable) :
    (between old new).bare = between old.bare new.bare := by
  rw [between, bare_ofChanges, List.map_append, List.map_append, map_bare_additions,
    map_bare_deletions, map_bare_modifications]
  rfl

theorem summary_bare (report : Report) : report.bare.summary = report.summary := by
  have hchanges : report.bare.changes = report.changes.map Change.bare := by
    simp [changes, bare, List.flatMap_map, List.map_flatMap]
  have hsize : report.bare.size = report.size := OrderedMap.size_mapValues _ _
  unfold summary
  rw [hchanges, hsize, List.countP_map, List.countP_map, List.countP_map]
  congr 1 <;> refine List.countP_congr fun ch _ => ?_ <;> cases ch <;> rfl

theorem between_alike {old old' new new' : SymbolTable} (hold : old.bare = old'.bare)
    (hnew : new.bare = new'.bare) : (between old new).Alike (between old' new') := by
  have hbare : (between old new).bare = (between old' new').bare := by
    rw [bare_between, bare_between, hold, hnew]
  refine ⟨hbare, ?_⟩
  rw [← summary_bare, hbare, summary_bare]

theorem betweenTraced_alike {old old' new new' : SymbolTable} (hold : old.bare = old'.bare)
    (hnew : new.bare = new'.bare) :
    (betweenTraced old new).Rel Alike (betweenTraced old' new') := by
  have halike := between_alike hold hnew
  simp only [betweenTraced, SymbolTable.size_eq_of_bare hold, SymbolTable.size_eq_of_bare hnew,
    halike.summary]
  exact .ok _ halike

end Report

theorem Traced.Rel.bind {α α' β β' : Type} {R : α → α' → Prop} {S : β → β' → Prop} {x : Traced α}
    {y : Traced α'} {f : α → Traced β} {g : α' → Traced β'} (h : x.Rel R y)
    (hnext : ∀ a b, R a b → (f a).Rel S (g b)) : (x.bind f).Rel S (y.bind g) := by
  cases h with
  | error failure events => exact .error failure events
  | @ok a b events hab =>
    have hrest := hnext a b hab
    simp only [Traced.bind]
    generalize f a = u at hrest
    generalize g b = v at hrest
    cases hrest with
    | error failure more => exact .error failure _
    | ok more hrest => exact .ok _ hrest

theorem Progress.Alike.traced {a b : Progress} (h : a.Alike b) :
    a.traced.Rel (fun s t => s.bare = t.bare) b.traced := by
  unfold Progress.traced
  rw [h.events, h.failure]
  cases b.failure with
  | some f => exact .error f _
  | none => exact .ok _ h.table

namespace Report

/-- The report between two sequences of listings. -/
def betweenListings (options : ReadOptions) (old new : List Listing) : Traced Report :=
  (Listing.readAll options old ∅).traced.bind fun old =>
    (Listing.readAll options new ∅).traced.bind fun new =>
      betweenTraced old new

/-- Under two display policies the same failure ends a comparison, or its reports are alike. -/
theorem between_readings_alike (p q : DisplayPolicy) (duplicates : DuplicatePolicy) :
    (∀ old new : List Listing, (betweenListings ⟨p, duplicates⟩ old new).Rel Alike
      (betweenListings ⟨q, duplicates⟩ old new)) ∧
    ∀ (w : Workspace) (oldRoot newRoot : Text),
      (betweenSnapshots ⟨p, duplicates⟩ w oldRoot newRoot).Rel Alike
        (betweenSnapshots ⟨q, duplicates⟩ w oldRoot newRoot) := by
  constructor
  · intro old new
    refine (Listing.readAll_alike old rfl).traced.bind fun s s' hs => ?_
    exact (Listing.readAll_alike new rfl).traced.bind fun t t' ht => betweenTraced_alike hs ht
  · intro w oldRoot newRoot
    refine (Snapshot.read_alike w oldRoot).traced.bind fun s s' hs => ?_
    exact (Snapshot.read_alike w newRoot).traced.bind fun t t' ht => betweenTraced_alike hs ht

end Report
end Surface
