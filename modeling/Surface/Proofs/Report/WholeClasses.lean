import Surface.Proofs.Listing.Reached
import Surface.Proofs.Report.Exactness

/-! # Classes that come or go as a whole

However listings are read into a table, each class of it has its own type. So the report between two
such tables shows a class that only one of them has by changes of one variant, the change of its
type among them, and the type of a class that both have neither comes nor goes.
-/

namespace Surface

/-- Some symbol of the class is in the table. -/
def SymbolTable.HasClass (table : SymbolTable) (c : Text) : Prop :=
  ∃ id, table.contains id = true ∧ id.declaringClass = c

/-- The table after reading one listing after another, each with options of its own. A read that
fails leaves what it has reached. -/
def Listing.readEach (readings : List (ReadOptions × Listing)) : SymbolTable :=
  readings.foldl (fun table reading => (reading.2.read reading.1 table).table) ∅

theorem Listing.reached_readEach (readings : List (ReadOptions × Listing)) :
    Reached (fun _ => True) (readEach readings) := by
  have run : ∀ table, Reached (fun _ => True) table → Reached (fun _ => True)
      (readings.foldl (fun table reading => (reading.2.read reading.1 table).table) table) := by
    induction readings with
    | nil => exact fun _ h => h
    | cons reading readings ih => exact fun table h => ih _ (.read reading.2 trivial h)
  exact run ∅ .empty

namespace Report

/-- What the report between two tables shows of a class. -/
structure ShowsWhole (old new : SymbolTable) (c : Text) : Prop where
  comes : ¬ old.HasClass c → (∀ ch ∈ (between old new).changesFor c, ch.isAddition = true) ∧
    ∃ d, .addition (.ofClass c) d ∈ (between old new).changesFor c
  goes : ¬ new.HasClass c → (∀ ch ∈ (between old new).changesFor c, ch.isDeletion = true) ∧
    ∃ d, .deletion (.ofClass c) d ∈ (between old new).changesFor c
  stays : old.HasClass c → new.HasClass c → ∀ ch ∈ (between old new).changesFor c,
    ch.id = .ofClass c → ch.isAddition = false ∧ ch.isDeletion = false

section Tables

variable {allowed : ReadOptions → Prop} {old new table : SymbolTable} {c : Text} {ch : Change}

theorem mem_changesFor_between : ch ∈ (between old new).changesFor c ↔
    ch.id.declaringClass = c ∧
      Change.ofDefinitions? ch.id (old.get? ch.id) (new.get? ch.id) = some ch := by
  rw [← mem_changes_between, (filed_between old new).mem_changes_iff]
  constructor
  · intro h
    have hclass := (filed_between old new).changesFor h
    exact ⟨hclass, hclass ▸ h⟩
  · rintro ⟨rfl, h⟩
    exact h

theorem exists_mem_changesFor (h : c ∈ (between old new).keys) :
    ∃ ch, ch ∈ (between old new).changesFor c := by
  obtain ⟨⟨c, chs⟩, he, rfl⟩ := List.mem_map.1 h
  have hget := OrderedMap.mem_entries_iff.1 he
  have hne := (filed_between old new c chs hget).1
  rw [changesFor, hget]
  exact List.exists_mem_of_ne_nil chs hne

theorem get?_eq_none_of_not_hasClass (h : ¬ table.HasClass c) {id : SymbolId}
    (hid : id.declaringClass = c) : table.get? id = none := by
  rw [← Option.not_isSome_iff_eq_none]
  exact fun hsome => h ⟨id, hsome, hid⟩

/-- A class of the table has its type. -/
theorem exists_type (h : Reached allowed table) (hc : table.HasClass c) :
    ∃ d, table.get? (.ofClass c) = some d := by
  obtain ⟨id, hid, rfl⟩ := hc
  exact Option.isSome_iff_exists.1 (h.contains_ofClass hid)

theorem ofDefinitions?_none_left (id : SymbolId) (new : Option Definition) :
    Change.ofDefinitions? id none new = new.map (.addition id) := by
  cases new <;> rfl

theorem ofDefinitions?_none_right (id : SymbolId) (old : Option Definition) :
    Change.ofDefinitions? id old none = old.map (.deletion id) := by
  cases old <;> rfl

/-- Where each symbol of a class is reported with the only definition that it has, the type of the
class is among them. -/
theorem exists_change_of_type {make : SymbolId → Definition → Change}
    (hmake : ∀ id d, (make id d).id = id) (h : Reached allowed table)
    (hmem : ∀ ch, ch ∈ (between old new).changesFor c ↔
      ch.id.declaringClass = c ∧ (table.get? ch.id).map (make ch.id) = some ch)
    (hc : c ∈ (between old new).keys) :
    (∀ ch ∈ (between old new).changesFor c, ∃ d, make ch.id d = ch) ∧
      ∃ d, make (.ofClass c) d ∈ (between old new).changesFor c := by
  refine ⟨fun ch hch => ?_, ?_⟩
  · obtain ⟨d, -, hd⟩ := Option.map_eq_some_iff.1 ((hmem ch).1 hch).2
    exact ⟨d, hd⟩
  · obtain ⟨ch, hch⟩ := exists_mem_changesFor hc
    obtain ⟨hclass, hget⟩ := (hmem ch).1 hch
    obtain ⟨d, hd, -⟩ := Option.map_eq_some_iff.1 hget
    obtain ⟨t, ht⟩ := exists_type h ⟨ch.id, Option.isSome_of_eq_some hd, hclass⟩
    refine ⟨t, (hmem _).2 ?_⟩
    rw [hmake, ht]
    exact ⟨rfl, rfl⟩

theorem comes_whole (hnew : Reached allowed new) (hc : c ∈ (between old new).keys)
    (hold : ¬ old.HasClass c) : (∀ ch ∈ (between old new).changesFor c, ch.isAddition = true) ∧
      ∃ d, .addition (.ofClass c) d ∈ (between old new).changesFor c := by
  have hmem : ∀ ch, ch ∈ (between old new).changesFor c ↔
      ch.id.declaringClass = c ∧ (new.get? ch.id).map (.addition ch.id) = some ch := by
    intro ch
    rw [mem_changesFor_between]
    refine and_congr_right fun hclass => ?_
    rw [get?_eq_none_of_not_hasClass hold hclass, ofDefinitions?_none_left]
  obtain ⟨hall, htype⟩ := exists_change_of_type (fun _ _ => rfl) hnew hmem hc
  refine ⟨fun ch hch => ?_, htype⟩
  obtain ⟨d, hd⟩ := hall ch hch
  rw [← hd]
  rfl

theorem goes_whole (hold : Reached allowed old) (hc : c ∈ (between old new).keys)
    (hnew : ¬ new.HasClass c) : (∀ ch ∈ (between old new).changesFor c, ch.isDeletion = true) ∧
      ∃ d, .deletion (.ofClass c) d ∈ (between old new).changesFor c := by
  have hmem : ∀ ch, ch ∈ (between old new).changesFor c ↔
      ch.id.declaringClass = c ∧ (old.get? ch.id).map (.deletion ch.id) = some ch := by
    intro ch
    rw [mem_changesFor_between]
    refine and_congr_right fun hclass => ?_
    rw [get?_eq_none_of_not_hasClass hnew hclass, ofDefinitions?_none_right]
  obtain ⟨hall, htype⟩ := exists_change_of_type (fun _ _ => rfl) hold hmem hc
  refine ⟨fun ch hch => ?_, htype⟩
  obtain ⟨d, hd⟩ := hall ch hch
  rw [← hd]
  rfl

theorem type_stays (hold : Reached allowed old) (hnew : Reached allowed new)
    (hc : old.HasClass c) (hc' : new.HasClass c) (hch : ch ∈ (between old new).changesFor c)
    (hid : ch.id = .ofClass c) : ch.isAddition = false ∧ ch.isDeletion = false := by
  obtain ⟨d, hd⟩ := exists_type hold hc
  obtain ⟨d', hd'⟩ := exists_type hnew hc'
  have hchange := (mem_changesFor_between.1 hch).2
  rw [hid, hd, hd', Change.ofDefinitions?] at hchange
  split at hchange
  · cases hchange
  · cases hchange
    exact ⟨rfl, rfl⟩

end Tables

/-- Each class of a table has its own type, whatever listings have been read into it. A class that
only the new table has comes as a whole, one that only the old table has goes as a whole, and the
type of a class of both does neither. -/
theorem between_wholeClasses (olds news : List (ReadOptions × Listing)) :
    (∀ id, (Listing.readEach olds).contains id = true →
      (Listing.readEach olds).contains (.ofClass id.declaringClass) = true) ∧
    ∀ c ∈ (between (Listing.readEach olds) (Listing.readEach news)).keys,
      ShowsWhole (Listing.readEach olds) (Listing.readEach news) c := by
  have hold := Listing.reached_readEach olds
  have hnew := Listing.reached_readEach news
  refine ⟨fun id hid => hold.contains_ofClass hid, fun c hc => ?_⟩
  constructor
  · exact comes_whole hnew hc
  · exact goes_whole hold hc
  · exact fun hclass hclass' ch hch hid => type_stays hold hnew hclass hclass' hch hid

def pump : Listing where
  source := "Pump".toList
  text := "public class Pump \x7b\n  int flow;\n  int flow;\n  void start();\n\x7d\n".toList

theorem between_wholeClasses_pump :
    let old := Listing.readEach [(⟨default, .fail⟩, pump)]
    (pump.read ⟨default, .fail⟩ ∅).failure ≠ none ∧
    old.contains ⟨"Pump".toList, .field, "flow".toList⟩ = true ∧
    old.contains (.ofClass "Pump".toList) = true ∧
    "Pump".toList ∈ (between old (Listing.readEach [])).keys ∧
    ShowsWhole old (Listing.readEach []) "Pump".toList := by
  intro old
  have hfailure : (pump.read ⟨default, .fail⟩ ∅).failure ≠ none := by decide +kernel
  have hflow : old.contains ⟨"Pump".toList, .field, "flow".toList⟩ = true := by decide +kernel
  have hkeys : "Pump".toList ∈ (between old (Listing.readEach [])).keys := by decide +kernel
  obtain ⟨htype, hwhole⟩ := between_wholeClasses [(⟨default, .fail⟩, pump)] []
  exact ⟨hfailure, hflow, htype _ hflow, hkeys, hwhole _ hkeys⟩

end Report
end Surface
