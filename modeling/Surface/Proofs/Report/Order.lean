import Surface.Markdown
import Surface.Proofs.Report.Exactness
import Surface.Proofs.Symbol
import Surface.Report.Json

/-! # The order of a report between two tables

Three passes in the order of the identities add the changes of all classes one after another. Each
class keeps the order in which its own changes come, so it lists its additions, its deletions and
its modifications, and each of these in the order of its symbols. Nothing is left of the order in
which rows were collected into the two tables.
-/

namespace Surface

theorem SymbolId.Precedes.inClass {a b : SymbolId} (h : a.Precedes b)
    (hclass : a.declaringClass = b.declaringClass) : a.PrecedesInClass b := by
  rcases h with hlt | ⟨-, h⟩
  · rw [hclass, ← Text.compare_eq_lt_iff] at hlt
    simp at hlt
  · exact h

namespace Report

/-- Changes of one variant, in the order of the symbols of a class. -/
structure IsBlock (variant : Change → Bool) (changes : List Change) : Prop where
  variant_eq : ∀ ch ∈ changes, variant ch = true
  sorted : changes.Pairwise fun a b => a.id.PrecedesInClass b.id

/-- Additions come first, then deletions, then modifications. -/
def InBlocks (changes : List Change) : Prop :=
  ∃ added deleted modified, changes = added ++ deleted ++ modified ∧
    IsBlock Change.isAddition added ∧ IsBlock Change.isDeletion deleted ∧
    IsBlock Change.isModification modified

structure InOrder (report : Report) : Prop where
  sorted_classes : report.keys.Pairwise fun c c' => c.bytes < c'.bytes
  inBlocks (c : Text) : InBlocks (report.changesFor c)

theorem pairwise_onesided {make : SymbolId → Definition → Change}
    (hmake : ∀ id d, (make id d).id = id) (here there : SymbolTable) :
    ((here.entries.filter fun e => !there.contains e.1).map fun e => make e.1 e.2).Pairwise
      fun a b => a.id.Precedes b.id := by
  rw [List.pairwise_map]
  refine (here.sorted.filter _).imp fun {e e'} hlt => ?_
  rw [hmake, hmake]
  exact SymbolId.compare_eq_lt_iff.1 hlt

theorem pairwise_additions (old new : SymbolTable) :
    (additions old new).Pairwise fun a b => a.id.Precedes b.id :=
  pairwise_onesided (fun _ _ => rfl) new old

theorem pairwise_deletions (old new : SymbolTable) :
    (deletions old new).Pairwise fun a b => a.id.Precedes b.id :=
  pairwise_onesided (fun _ _ => rfl) old new

theorem pairwise_modifications (old new : SymbolTable) :
    (modifications old new).Pairwise fun a b => a.id.Precedes b.id := by
  rw [modifications, List.pairwise_filterMap]
  refine old.sorted.imp fun {e e'} hlt ch hch ch' hch' => ?_
  rw [id_of_modification? hch, id_of_modification? hch']
  exact SymbolId.compare_eq_lt_iff.1 hlt

theorem isAddition_of_mem {old new : SymbolTable} {ch : Change} (h : ch ∈ additions old new) :
    ch.isAddition = true := by
  obtain ⟨e, -, rfl⟩ := List.mem_map.1 h
  rfl

theorem isDeletion_of_mem {old new : SymbolTable} {ch : Change} (h : ch ∈ deletions old new) :
    ch.isDeletion = true := by
  obtain ⟨e, -, rfl⟩ := List.mem_map.1 h
  rfl

theorem isModification_of_mem {old new : SymbolTable} {ch : Change}
    (h : ch ∈ modifications old new) : ch.isModification = true := by
  obtain ⟨⟨id, d⟩, -, hid⟩ := List.mem_filterMap.1 h
  unfold modification? at hid
  cases hnew : new.get? id with
  | none => simp [hnew] at hid
  | some d' =>
    by_cases hfull : d.full = d'.full
    · simp [hnew, hfull] at hid
    · simp only [hnew, if_neg hfull] at hid
      cases hid
      rfl

/-- What a pass adds to one class is a block of its list. -/
theorem isBlock_ofClass {variant : Change → Bool} {changes : List Change}
    (hvariant : ∀ ch ∈ changes, variant ch = true)
    (hsorted : changes.Pairwise fun a b => a.id.Precedes b.id) (c : Text) :
    IsBlock variant (changes.filter fun ch => c = ch.id.declaringClass) where
  variant_eq ch hch := hvariant ch (List.mem_of_mem_filter hch)
  sorted := by
    refine (hsorted.filter _).imp_of_mem fun {a b} ha hb hab => hab.inClass ?_
    have hclass := of_decide_eq_true (List.mem_filter.1 ha).2
    have hclass' := of_decide_eq_true (List.mem_filter.1 hb).2
    exact hclass.symm.trans hclass'

theorem inOrder_between (old new : SymbolTable) : InOrder (between old new) where
  sorted_classes := (OrderedMap.pairwise_keys _).imp Text.compare_eq_lt_iff.1
  inBlocks c := by
    rw [between, changesFor_ofChanges, List.filter_append, List.filter_append]
    exact ⟨_, _, _, rfl,
      isBlock_ofClass (fun _ => isAddition_of_mem) (pairwise_additions old new) c,
      isBlock_ofClass (fun _ => isDeletion_of_mem) (pairwise_deletions old new) c,
      isBlock_ofClass (fun _ => isModification_of_mem) (pairwise_modifications old new) c⟩

/-- The definition in the last row of a symbol. -/
def lastDefinition? (rows : List (SymbolId × Definition)) (id : SymbolId) : Option Definition :=
  (rows.filter fun row => row.1 = id).getLast?.map Prod.snd

theorem get?_ofList (rows : List (SymbolId × Definition)) (id : SymbolId) :
    (OrderedMap.ofList rows).get? id = lastDefinition? rows id := by
  refine (OrderedMap.get?_insertAll ∅ rows id).trans ?_
  rw [lastDefinition?]
  cases (rows.filter fun row => row.1 = id).getLast? <;> rfl

theorem ofList_eq {rows rows' : List (SymbolId × Definition)}
    (h : lastDefinition? rows = lastDefinition? rows') :
    OrderedMap.ofList rows = OrderedMap.ofList rows' := by
  apply OrderedMap.ext
  intro id
  rw [get?_ofList, get?_ofList, h]

/-- Classes and changes are in order, and rows that say the same in the end make the same report,
whatever their order and whatever they say in between. -/
theorem between_canonical : (∀ old new, InOrder (between old new)) ∧
    ∀ oldRows oldRows' newRows newRows', lastDefinition? oldRows = lastDefinition? oldRows' →
      lastDefinition? newRows = lastDefinition? newRows' →
      let report := between (OrderedMap.ofList oldRows) (OrderedMap.ofList newRows)
      let report' := between (OrderedMap.ofList oldRows') (OrderedMap.ofList newRows')
      report = report' ∧ report.renderJson = report'.renderJson ∧
        ∀ s, Markdown.render s report = Markdown.render s report' := by
  refine ⟨inOrder_between, ?_⟩
  intro oldRows oldRows' newRows newRows' hold hnew report report'
  have heq : report = report' := by
    change between _ _ = between _ _
    rw [ofList_eq hold, ofList_eq hnew]
  rw [heq]
  exact ⟨rfl, rfl, fun _ => rfl⟩

def ringSize : SymbolId := ⟨"Ring".toList, .field, "size".toList⟩

def ringStone : SymbolId := ⟨"Ring".toList, .field, "stone".toList⟩

def fieldOf (full : Text) : Definition := ⟨full, full, "field".toList⟩

def ringRows : List (SymbolId × Definition) :=
  [(ringSize, fieldOf "int size"), (ringStone, fieldOf "Gem stone")]

def ringRowsAgain : List (SymbolId × Definition) :=
  [(ringStone, fieldOf "int stone"), (ringStone, fieldOf "Gem stone"),
    (ringSize, fieldOf "int size")]

theorem lastDefinition?_ringRows : lastDefinition? ringRows = lastDefinition? ringRowsAgain := by
  funext id
  by_cases hsize : ringSize = id
  · subst hsize
    decide
  · by_cases hstone : ringStone = id
    · subst hstone
      decide
    · simp [lastDefinition?, ringRows, ringRowsAgain, hsize, hstone]

theorem between_canonical_rings :
    let report := between (OrderedMap.ofList ringRows) (OrderedMap.ofList [])
    let report' := between (OrderedMap.ofList ringRowsAgain) (OrderedMap.ofList [])
    lastDefinition? ringRows = lastDefinition? ringRowsAgain ∧ report.changes.length = 2 ∧
      report = report' ∧ report.renderJson = report'.renderJson ∧
      ∀ s, Markdown.render s report = Markdown.render s report' := by
  intro report report'
  have hlength : report.changes.length = 2 := by decide +kernel
  have hsame := between_canonical.2 ringRows ringRowsAgain [] [] lastDefinition?_ringRows rfl
  exact ⟨lastDefinition?_ringRows, hlength, hsame⟩

end Report
end Surface
