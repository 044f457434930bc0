import Surface.Proofs.Disk.Encounters
import Surface.Proofs.Listing.Outline
import Surface.Snapshot

/-! # Snapshots in the order of the names

Reading a snapshot is reading, from the empty table on, what the walk comes upon, in the order of
the names on the way. So the result is decided by what stands below the root, and not by how it has
come there. Of several definitions of an identity the last one in this order stays, and the first
file that cannot be read ends the reading.
-/

namespace Surface

/-- The listing in a file, whose path has to be one that can be opened and whose bytes have to be
those of a text. -/
def SourceFile.listing (file : SourceFile) : Except FileError Listing :=
  match Path.check file.path, Workspace.decode file.content with
  | .ok _, .ok text => .ok ⟨file.path, text⟩
  | .ok _, .error e => .error e
  | .error e, _ => .error e

theorem SourceFile.listing_eq (file : SourceFile) :
    file.listing = file.text.map fun text => ⟨file.path, text⟩ := by
  unfold SourceFile.listing SourceFile.text
  cases Path.check file.path with
  | error e => cases Workspace.decode file.content <;> rfl
  | ok _ => cases Workspace.decode file.content <;> rfl

namespace Snapshot

variable {options : ReadOptions} {display : DisplayPolicy} {table : SymbolTable} {e : Encounter}
  {f : Failure}

/-- A file is read as a listing, and an obstacle ends the reading. -/
def readEncounter (options : ReadOptions) (e : Encounter) (table : SymbolTable) : Progress :=
  match e with
  | .ok file =>
    match file.listing with
    | .ok listing =>
      (listing.read options table).emit (.listed file.path listing.declarations.length)
    | .error e => ⟨table, [], some (ioFailure "read_listing" file.path e.message)⟩
  | .error f => ⟨table, [], some f⟩

theorem readFile_eq (options : ReadOptions) (file : SourceFile) :
    readFile options file = readEncounter options (.ok file) := by
  funext table
  rw [readFile, readEncounter, file.listing_eq]
  cases file.text <;> rfl

def readEncounters (options : ReadOptions) (es : List Encounter) : SymbolTable → Progress :=
  Progress.steps (readEncounter options) es

theorem readWalk_ofEncounters (options : ReadOptions) (es : List Encounter) :
    readWalk options (Walk.ofEncounters es) = readEncounters options es ∅ := by
  have run : ∀ table, (Progress.steps (readFile options) (Walk.ofEncounters es).files
      table).andThen (fun table => ⟨table, [], (Walk.ofEncounters es).failure⟩) =
        readEncounters options es table := by
    induction es with
    | nil => exact fun _ => rfl
    | cons e es ih =>
      intro table
      cases e with
      | error f =>
        rw [readEncounters, Progress.steps_cons]
        exact (Progress.andThen_failed rfl _).symm
      | ok file =>
        rw [readEncounters, Progress.steps_cons, Walk.ofEncounters, Progress.steps_cons,
          Progress.andThen_assoc, readFile_eq]
        exact congrArg _ (funext ih)
  exact run ∅

/-- Why a file or an obstacle ends the reading at a table. -/
inductive Fails (options : ReadOptions) (table : SymbolTable) : Encounter → Failure → Prop
  | obstacle {f : Failure} : Fails options table (.error f) f
  | unreadable {file : SourceFile} {error : FileError} : file.listing = .error error →
      Fails options table (.ok file) (ioFailure "read_listing" file.path error.message)
  | refused {file : SourceFile} {listing : Listing} {f : Failure} : file.listing = .ok listing →
      (listing.read options table).failure = some f → Fails options table (.ok file) f

theorem fails_iff : Fails options table e f ↔ (readEncounter options e table).failure = some f := by
  cases e with
  | error g =>
    constructor
    · rintro ⟨⟩
      rfl
    · intro h
      cases h
      exact .obstacle
  | ok file =>
    rw [readEncounter]
    cases hlisting : file.listing with
    | error error =>
      constructor
      · rintro (_ | h | ⟨h, _⟩)
        · cases h.symm.trans hlisting
          rfl
        · cases h.symm.trans hlisting
      · intro h
        cases h
        exact .unreadable hlisting
    | ok listing =>
      dsimp only
      rw [Progress.failure_emit]
      constructor
      · rintro (_ | h | ⟨h, hread⟩)
        · cases h.symm.trans hlisting
        · cases h.symm.trans hlisting
          exact hread
      · exact .refused hlisting

/-- What a file says as a listing. -/
def outline (display : DisplayPolicy) : Encounter → Outline
  | .ok file =>
    match file.listing with
    | .ok listing => listing.outline display
    | .error error => ⟨[], some ⟨[], ioFailure "read_listing" file.path error.message⟩⟩
  | .error f => ⟨[], some ⟨[], f⟩⟩

theorem table_readEncounter_overwrite
    (h : (readEncounter ⟨display, .overwrite⟩ e table).failure = none) :
    (readEncounter ⟨display, .overwrite⟩ e table).table =
      table.insertAll (outline display e).rows := by
  cases e with
  | error f => cases h
  | ok file =>
    rw [readEncounter] at h ⊢
    cases hlisting : file.listing with
    | error error =>
      rw [hlisting] at h
      cases h
    | ok listing =>
      dsimp only
      rw [Progress.table_emit, Listing.read_eq_define, outline, hlisting]
      exact (Outline.define_overwrite _ _).2

theorem table_readEncounters_overwrite {es : List Encounter}
    (h : (readEncounters ⟨display, .overwrite⟩ es table).failure = none) :
    (readEncounters ⟨display, .overwrite⟩ es table).table =
      table.insertAll (es.flatMap fun e => (outline display e).rows) := by
  induction es generalizing table with
  | nil => rfl
  | cons e es ih =>
    rw [readEncounters, Progress.steps_cons] at h ⊢
    cases he : (readEncounter ⟨display, .overwrite⟩ e table).failure with
    | some f =>
      rw [Progress.andThen_failed he, he] at h
      cases h
    | none =>
      rw [Progress.failure_andThen he] at h
      rw [Progress.table_andThen he, List.flatMap_cons, OrderedMap.insertAll_append,
        ← table_readEncounter_overwrite he]
      exact ih h

/-- The declarations of all files, each with the names that lead to its file. -/
def declarations (display : DisplayPolicy) (met : OrderedMap Location Encounter) :
    List (Location × Entry) :=
  met.entries.flatMap fun row => (outline display row.2).entries.map fun entry => (row.1, entry)

/-- The first declaration stands in an earlier file, or further up in the same file. -/
def Precedes (a b : Location × Entry) : Prop :=
  compare (a.1.map Text.bytes) (b.1.map Text.bytes) = .lt ∨ a.1 = b.1 ∧ a.2.line < b.2.line

theorem pairwise_lines (display : DisplayPolicy) (e : Encounter) :
    (outline display e).entries.Pairwise fun a b => a.line < b.line := by
  unfold outline
  cases e with
  | error f => exact .nil
  | ok file =>
    dsimp only
    cases file.listing with
    | error error => exact .nil
    | ok listing =>
      have hlines := (listing.lines_outline display).sublist
      exact List.pairwise_map.1 (List.Pairwise.sublist hlines (List.pairwise_lt_range' 1))

theorem pairwise_declarations (display : DisplayPolicy) (met : OrderedMap Location Encounter) :
    (declarations display met).Pairwise Precedes := by
  rw [declarations, List.pairwise_flatMap]
  refine ⟨fun row _ => List.pairwise_map.2 ((pairwise_lines display row.2).imp fun h => ?_),
    met.sorted.imp fun {row row'} h a ha b hb => ?_⟩
  · exact .inr ⟨rfl, h⟩
  · obtain ⟨_, -, rfl⟩ := List.mem_map.1 ha
    obtain ⟨_, -, rfl⟩ := List.mem_map.1 hb
    exact .inl ((Text.compare_map_bytes _ _).trans h)

theorem map_row_declarations (display : DisplayPolicy) (met : OrderedMap Location Encounter) :
    (declarations display met).map (fun d => d.2.row) =
      met.values.flatMap fun e => (outline display e).rows := by
  rw [declarations, List.map_flatMap, OrderedMap.values, List.flatMap_map]
  simp only [List.map_map]
  rfl

/-- Each identity has the definition of its last declaration. -/
theorem get?_readEncounters_overwrite {met : OrderedMap Location Encounter}
    (h : (readEncounters ⟨display, .overwrite⟩ met.values ∅).failure = none) (id : SymbolId) :
    (readEncounters ⟨display, .overwrite⟩ met.values ∅).table.get? id =
      ((declarations display met).filter fun d => d.2.id = id).getLast?.map
        fun d => d.2.definition := by
  rw [table_readEncounters_overwrite h, ← map_row_declarations, OrderedMap.get?_insertAll,
    List.filter_map, List.getLast?_map]
  have hid : ((fun row : SymbolId × Definition => decide (row.1 = id)) ∘
      fun d : Location × Entry => d.2.row) = fun d => decide (d.2.id = id) := rfl
  rw [hid]
  cases ((declarations display met).filter fun d => d.2.id = id).getLast? <;> rfl

variable {w : Workspace} {root : Text} {location : Location}

/-- What the walk from a directory comes upon, as a map from the names on the way. -/
theorem exists_encounters (hroot : w.resolve root = .ok location)
    (hdirectory : w.disk.isDirectory location = true) : ∃ met : OrderedMap Location Encounter,
      (∀ names, met.get? names = Walk.encounter? w ⟨root, location⟩ [] names) ∧
      ∀ options, readRoot options w root = readEncounters options met.values ∅ := by
  obtain ⟨met, hmet, hwalk⟩ := Walk.yields_below w ⟨root, location⟩ []
  refine ⟨⟨met, hmet.sorted⟩, fun names => ?_, fun options => ?_⟩
  · apply Option.ext
    intro e
    rw [← OrderedMap.mem_entries_iff]
    exact hmet.mem_iff
  · have hproblem : rootProblem? w root = none := by
      rw [rootProblem?, Workspace.isDirectory, hroot]
      exact if_pos hdirectory
    rw [readRoot, hproblem]
    dsimp only
    rw [Workspace.walk, hroot]
    dsimp only
    rw [hwalk]
    exact readWalk_ofEncounters options _

/-- The snapshot is read in the order of the names on the way from its root. -/
structure ReadsInOrder (options : ReadOptions) (w : Workspace) (root : Text) (location : Location)
    (met : OrderedMap Location Encounter) : Prop where
  resolves : w.resolve root = .ok location
  /-- All that the walk comes upon is read. -/
  get?_met (names : Location) : met.get? names = Walk.encounter? w ⟨root, location⟩ [] names
  /-- In a tree without links and without paths that are too long, these are the files. -/
  get?_plain : Walk.Plain w ⟨root, location⟩ → ∀ names,
    met.get? names = (Walk.fileBelow? w.disk ⟨root, location⟩ names).map .ok
  /-- The names on the way are compared one by one and byte by byte. -/
  order : met.keys.Pairwise fun a b => compare (a.map Text.bytes) (b.map Text.bytes) = .lt
  folds : (read options w root).failure = (readEncounters options met.values ∅).failure ∧
    (read options w root).table = (readEncounters options met.values ∅).table
  /-- How the tree has come about makes no difference. -/
  independent (w' : Workspace) (location' : Location) : w'.resolve root = .ok location' →
    w'.disk.isDirectory location' = true →
    (∀ names, Walk.encounter? w' ⟨root, location'⟩ [] names =
      Walk.encounter? w ⟨root, location⟩ [] names) → read options w' root = read options w root
  /-- Where later definitions replace earlier ones, the last one of an identity stays. -/
  overwrites : options.duplicates = .overwrite → (read options w root).failure = none →
    (declarations options.display met).Pairwise Precedes ∧
    ∀ id, (read options w root).table.get? id =
      ((declarations options.display met).filter fun d => d.2.id = id).getLast?.map
        fun d => d.2.definition
  /-- The first failure ends the reading, whatever comes behind it. -/
  failure_iff (f : Failure) : (read options w root).failure = some f ↔
    ∃ front e behind, met.values = front ++ e :: behind ∧
      (readEncounters options front ∅).failure = none ∧
      Fails options (readEncounters options front ∅).table e f

theorem exists_readsInOrder (hroot : w.isDirectory root = true) (options : ReadOptions) :
    ∃ location met, ReadsInOrder options w root location met := by
  rw [Workspace.isDirectory] at hroot
  cases hresolve : w.resolve root with
  | error error =>
    rw [hresolve] at hroot
    cases hroot
  | ok location =>
    rw [hresolve] at hroot
    obtain ⟨met, hmet, hread⟩ := exists_encounters hresolve hroot
    have hfailure : (read options w root).failure =
        (readEncounters options met.values ∅).failure := by
      rw [← hread]
      rfl
    have htable : (read options w root).table = (readEncounters options met.values ∅).table := by
      rw [← hread]
      rfl
    refine ⟨location, met, ?_⟩
    constructor
    · exact hresolve
    · exact hmet
    · intro hplain names
      rw [hmet]
      exact hplain.encounter? (Disk.isDirectory_iff.1 hroot) [] names
    · refine met.pairwise_keys.imp fun {a b} hlt => ?_
      rw [Text.compare_map_bytes]
      exact hlt
    · exact ⟨hfailure, htable⟩
    · intro w' location' hresolve' hroot' hsame
      obtain ⟨met', hmet', hread'⟩ := exists_encounters hresolve' hroot'
      have hmets : met' = met := OrderedMap.ext fun names => by rw [hmet', hmet, hsame]
      rw [read, read, hread, hread', hmets]
    · intro hduplicates hfine
      obtain ⟨display, duplicates⟩ := options
      cases hduplicates
      refine ⟨pairwise_declarations display met, fun id => ?_⟩
      rw [htable]
      exact get?_readEncounters_overwrite (hfailure ▸ hfine) id
    · intro f
      rw [hfailure, readEncounters, Progress.failure_steps_eq_some_iff]
      simp only [fails_iff]
      rfl

/-- A directory with a file `a.txt` beside a directory `a` that holds a file `x`, and a file with
settings beside all that. -/
def tanksWith (settings first last : ByteArray) : Workspace where
  disk := ((((Disk.empty.put [] "tanks.toml".toList (.file settings)).put [] "tanks".toList
    .directory).put ["tanks".toList] "a.txt".toList (.file last)).put ["tanks".toList] "a".toList
      .directory).put ["tanks".toList, "a".toList] "x".toList (.file first)
  current := []

section

variable {settings first last : ByteArray}

theorem resolve_tanksWith :
    (tanksWith settings first last).resolve "tanks".toList = .ok ["tanks".toList] := by
  have hnames : Path.names "tanks".toList = ["tanks".toList] := rfl
  rw [Workspace.resolve, hnames]
  simp only [Disk.follow]
  rfl

theorem isDirectory_tanksWith :
    (tanksWith settings first last).isDirectory "tanks".toList = true := by
  rw [Workspace.isDirectory, resolve_tanksWith]
  rfl

theorem below_tanksWith : Walk.below (tanksWith settings first last)
    ⟨"tanks/a".toList, ["tanks".toList, "a".toList]⟩ [⟨"tanks".toList, ["tanks".toList]⟩] =
      ⟨[⟨"tanks/a/x".toList, first⟩], none⟩ := by
  have hchildren : (tanksWith settings first last).disk.children ["tanks".toList, "a".toList] =
      ["x".toList] := rfl
  rw [Walk.below_of_check _ rfl, hchildren, Walk.entries_cons, Walk.entries]
  rfl

/-- The file of the directory comes first, though `.` comes before `/`. -/
theorem walk_tanksWith : (tanksWith settings first last).walk "tanks".toList =
    ⟨[⟨"tanks/a/x".toList, first⟩, ⟨"tanks/a.txt".toList, last⟩], none⟩ := by
  have hchildren : (tanksWith settings first last).disk.children ["tanks".toList] =
      ["a".toList, "a.txt".toList] := rfl
  have hentry : Walk.entry (tanksWith settings first last) ⟨"tanks".toList, ["tanks".toList]⟩ []
      "a".toList = ⟨[⟨"tanks/a/x".toList, first⟩], none⟩ := below_tanksWith
  rw [Workspace.walk, resolve_tanksWith]
  dsimp only
  rw [Walk.below_of_check _ rfl, hchildren, Walk.entries_cons, Walk.entries_cons, Walk.entries,
    hentry]
  rfl

theorem readRoot_tanksWith (options : ReadOptions) :
    readRoot options (tanksWith settings first last) "tanks".toList = readWalk options
      ⟨[⟨"tanks/a/x".toList, first⟩, ⟨"tanks/a.txt".toList, last⟩], none⟩ := by
  have hproblem : rootProblem? (tanksWith settings first last) "tanks".toList = none :=
    if_pos isDirectory_tanksWith
  rw [readRoot, hproblem, walk_tanksWith]

theorem mem_names_tanksWith {names : Location} {node : Node}
    (h : (tanksWith settings first last).disk.node? (["tanks".toList] ++ names) = some node) :
    names ∈ [[], ["a".toList], ["a".toList, "x".toList], ["a.txt".toList]] := by
  have hlocations : (tanksWith settings first last).disk.locations = [[], ["tanks".toList],
      ["tanks".toList, "a".toList], ["tanks".toList, "a".toList, "x".toList],
      ["tanks".toList, "a.txt".toList], ["tanks.toml".toList]] := rfl
  have hmem := Disk.mem_locations h
  rw [hlocations] at hmem
  simpa using hmem

theorem plain_tanksWith :
    Walk.Plain (tanksWith settings first last) ⟨"tanks".toList, ["tanks".toList]⟩ where
  noLink names target h := by
    have hmem := mem_names_tanksWith h
    simp only [List.mem_cons, List.not_mem_nil, or_false] at hmem
    rcases hmem with rfl | rfl | rfl | rfl <;> nomatch h
  opens names h := by
    have hmem := mem_names_tanksWith h
    simp only [List.mem_cons, List.not_mem_nil, or_false] at hmem
    rcases hmem with rfl | rfl | rfl | rfl <;> rfl

end

def tanks : Workspace := tanksWith
  (Workspace.encode "on_duplicate = \"fail\"\nformat = \"json\"\n".toList)
  (Workspace.encode "public class Tank \x7b\n  int level;\n\x7d\n".toList)
  (Workspace.encode "public class Tank \x7b\n  protected int level;\n\x7d\n".toList)

theorem exists_readsInOrder_tanks : tanks.isDirectory "tanks".toList = true ∧
    Walk.Plain tanks ⟨"tanks".toList, ["tanks".toList]⟩ ∧
    (tanks.walk "tanks".toList).files.map SourceFile.path =
      ["tanks/a/x".toList, "tanks/a.txt".toList] ∧
    ∃ met, ReadsInOrder default tanks "tanks".toList ["tanks".toList] met := by
  have hpaths : (tanks.walk "tanks".toList).files.map SourceFile.path =
      ["tanks/a/x".toList, "tanks/a.txt".toList] := by
    rw [tanks, walk_tanksWith]
    rfl
  obtain ⟨location, met, h⟩ := exists_readsInOrder isDirectory_tanksWith default
  cases h.resolves.symm.trans resolve_tanksWith
  exact ⟨isDirectory_tanksWith, plain_tanksWith, hpaths, met, h⟩

end Snapshot
end Surface
