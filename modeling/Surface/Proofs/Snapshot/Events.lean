import Mathlib.Algebra.GroupWithZero.Nat
import Surface.Proofs.Event
import Surface.Proofs.Listing.Progress
import Surface.Proofs.OrderedMap
import Surface.Proofs.Snapshot

/-! # What reading a snapshot tells

On its way through a snapshot the reading tells of each declaration when it is classified, of each
definition that is replaced, and of each file with the number of its declarations. These three
counts balance against the size of the table that is reached: one declaration adds a symbol or
replaces the definition of one.
-/

namespace Surface

namespace Event

/-- The events inside the reading of a snapshot. -/
inductive Inner (duplicates : DuplicatePolicy) : Event → Prop
  | classified (kind : Kind) (signature : Text) : Inner duplicates (.classified kind signature)
  | overwritten (source : Text) (line : Nat) : duplicates = .overwrite →
      Inner duplicates (.overwritten source line)
  | listed (source : Text) (declarations : Nat) : Inner duplicates (.listed source declarations)

theorem Inner.bracket?_eq_none {duplicates : DuplicatePolicy} {e : Event}
    (h : Inner duplicates e) : e.bracket? = none := by
  cases h <;> rfl

def classifications (events : List Event) : Nat := (events.filter (tells "classified")).length

def overwrites (events : List Event) : Nat :=
  (events.filter (tells "duplicate identity overwritten")).length

/-- The listings that are told of, each with the number of its declarations. -/
def listings (events : List Event) : List (Option Text × Option Nat) :=
  (events.filter (tells "parsed listing")).map fun e =>
    (e.text? "listing_path", e.number? "declarations")

/-- The number of declarations in all listings that are told of. -/
def declared (events : List Event) : Nat := ((listings events).filterMap Prod.snd).sum

theorem Inner.overwrites_eq_zero {events : List Event} (h : ∀ e ∈ events, Inner .fail e) :
    overwrites events = 0 := by
  refine List.length_eq_zero_iff.2 (List.filter_eq_nil_iff.2 fun e he => ?_)
  cases h e he with
  | classified kind signature => exact Bool.false_ne_true
  | overwritten source line hpolicy => cases hpolicy
  | listed source declarations => exact Bool.false_ne_true

/-- The brackets of an operation have no message. -/
theorem not_tells_of_bracket {e : Event} (h : e.isBracket = true) (message : Text) :
    e.tells message = false := by
  have hnone : e.text? "message" = none := by
    cases e with
    | classified kind signature => cases h
    | overwritten source line => cases h
    | listed source declarations => cases h
    | folderIgnored path => cases h
    | readStarted | readEnded | readFailed | compareStarted | compareEnded | runStarted | runEnded
      | runFailed => rfl
  rw [tells, hnone]
  rfl

theorem filter_tells_bracketed {first last : Event} (hfirst : first.isBracket = true)
    (hlast : last.isBracket = true) (message : Text) (events : List Event) :
    (first :: events ++ [last]).filter (tells message) = events.filter (tells message) := by
  have hfirst := not_tells_of_bracket hfirst message
  have hlast := not_tells_of_bracket hlast message
  simp [hfirst, hlast]

end Event

open Event

/-- From a table on `n` declarations have been read: all have been classified, each has added a
symbol or replaced a definition, and these are the listings told of. -/
structure Progress.Accounts (before : SymbolTable) (p : Progress) (n : Nat)
    (told : List (Option Text × Option Nat)) : Prop where
  classified : classifications p.events = n
  size : p.table.size + overwrites p.events = before.size + n
  listings_eq : listings p.events = told

namespace Progress

variable {before table : SymbolTable} {p : Progress} {step : SymbolTable → Progress} {n m : Nat}
  {told more : List (Option Text × Option Nat)}

theorem accounts_nil (table : SymbolTable) (failure : Option Failure) :
    Accounts table ⟨table, [], failure⟩ 0 [] := ⟨rfl, rfl, rfl⟩

theorem Accounts.andThen (hp : Accounts before p n told) (hfine : p.failure = none)
    (hstep : Accounts p.table (step p.table) m more) :
    Accounts before (p.andThen step) (n + m) (told ++ more) := by
  have hevents := events_andThen hfine step
  constructor
  · rw [hevents, classifications, List.filter_append, List.length_append, ← hp.classified,
      ← hstep.classified]
    rfl
  · rw [table_andThen hfine, hevents, overwrites, List.filter_append, List.length_append]
    have hfirst := hp.size
    have hsecond := hstep.size
    unfold overwrites at hfirst hsecond
    omega
  · rw [hevents, listings, List.filter_append, List.map_append, ← hp.listings_eq,
      ← hstep.listings_eq]
    rfl

/-- What each step accounts for, a sequence of steps accounts for together. -/
theorem accounts_steps {α : Type} {step : α → SymbolTable → Progress} {n : α → Nat}
    {told : α → List (Option Text × Option Nat)}
    (hstep : ∀ x table, (step x table).failure = none →
      Accounts table (step x table) (n x) (told x)) {xs : List α} {table : SymbolTable}
    (hfine : (steps step xs table).failure = none) :
    Accounts table (steps step xs table) (xs.map n).sum (xs.flatMap told) := by
  induction xs generalizing table with
  | nil => exact accounts_nil table none
  | cons x xs ih =>
    rw [steps_cons] at hfine ⊢
    obtain ⟨hx, hxs⟩ := failure_andThen_eq_none_iff.1 hfine
    exact (hstep x table hx).andThen hx (ih hxs)

end Progress

namespace Listing

open Progress

variable {options : ReadOptions} {duplicates : DuplicatePolicy} {source declaringClass full : Text}
  {line : Nat} {c : Classification} {table : SymbolTable}

theorem accounts_define
    (hfine : (define duplicates source line declaringClass full c table).failure = none) :
    Accounts table (define duplicates source line declaringClass full c table) 1 [] := by
  have hsize := OrderedMap.size_insert table ⟨declaringClass, c.kind, c.signature⟩
    ⟨full, c.short, c.label⟩
  unfold define SymbolTable.define at hfine ⊢
  by_cases hdup : duplicates = .fail ∧ table.contains ⟨declaringClass, c.kind, c.signature⟩ = true
  · rw [if_pos hdup] at hfine
    cases hfine
  · rw [if_neg hdup]
    unfold OrderedMap.contains at hsize
    cases hget : table.get? ⟨declaringClass, c.kind, c.signature⟩ with
    | none =>
      rw [hget] at hsize
      exact ⟨rfl, hsize, rfl⟩
    | some displaced =>
      rw [hget] at hsize
      exact ⟨rfl, congrArg (· + 1) hsize, rfl⟩

theorem accounts_readMember {raw : Text × Nat}
    (hfine : (readMember options source declaringClass raw table).failure = none) :
    Accounts table (readMember options source declaringClass raw table) 1 [] := by
  unfold readMember at hfine ⊢
  cases hc : classifyLine options.display source raw.2 raw.1 with
  | error f =>
    rw [hc] at hfine
    cases hfine
  | ok classified =>
    rw [hc] at hfine
    exact accounts_define hfine

theorem accounts_readMembers {members : List Text}
    (hfine : (readMembers options source declaringClass members table).failure = none) :
    Accounts table (readMembers options source declaringClass members table) members.length [] := by
  have hstep : ∀ raw t, (readMember options source declaringClass raw t).failure = none →
      Accounts t (readMember options source declaringClass raw t) 1 [] :=
    fun _ _ => accounts_readMember
  have hsteps := accounts_steps hstep hfine
  have hlength : ((members.zipIdx 2).map fun _ => 1).sum = members.length := by
    rw [List.map_const', List.length_zipIdx, List.sum_replicate_nat, Nat.mul_one]
  rwa [hlength, List.flatMap_eq_nil_iff.2 fun _ _ => rfl] at hsteps

theorem accounts_readDeclarations {lines : List Text}
    (hfine : (readDeclarations options source table lines).failure = none) :
    Accounts table (readDeclarations options source table lines) lines.length [] := by
  cases lines with
  | nil => exact accounts_nil table none
  | cons header members =>
    cases hc : classifyLine options.display source 1 header with
    | error f =>
      simp only [readDeclarations, hc] at hfine
      cases hfine
    | ok classified =>
      obtain ⟨full, c⟩ := classified
      simp only [readDeclarations, hc] at hfine ⊢
      split at hfine
      next hkind =>
        rw [if_pos hkind]
        obtain ⟨hheader, hmembers⟩ := failure_andThen_eq_none_iff.1 hfine
        have haccounts := (accounts_define hheader).andThen hheader (accounts_readMembers hmembers)
        rwa [Nat.add_comm] at haccounts
      next => cases hfine

theorem inner_define : ∀ e ∈ (define duplicates source line declaringClass full c table).events,
    Inner duplicates e := by
  have hclassified : ∀ e ∈ [Event.classified c.kind c.signature], Inner duplicates e := by
    intro e he
    cases List.mem_singleton.1 he
    exact .classified _ _
  unfold define SymbolTable.define
  by_cases hdup : duplicates = .fail ∧ table.contains ⟨declaringClass, c.kind, c.signature⟩ = true
  · rw [if_pos hdup]
    exact hclassified
  · rw [if_neg hdup]
    cases hget : table.get? ⟨declaringClass, c.kind, c.signature⟩ with
    | none => exact hclassified
    | some displaced =>
      have hoverwrite : duplicates = .overwrite := by
        cases duplicates with
        | overwrite => rfl
        | fail => exact absurd ⟨rfl, Option.isSome_of_eq_some hget⟩ hdup
      exact List.forall_mem_cons.2 ⟨.classified _ _,
        List.forall_mem_singleton.2 (.overwritten source line hoverwrite)⟩

theorem inner_read (l : Listing) :
    ∀ e ∈ (l.read options table).events, Inner options.duplicates e := by
  have hmember : ∀ declaringClass (raw : Text × Nat) table,
      ∀ e ∈ (readMember options l.source declaringClass raw table).events,
        Inner options.duplicates e := by
    intro declaringClass raw table
    unfold readMember
    cases classifyLine options.display l.source raw.2 raw.1 with
    | error f => exact fun e he => by cases he
    | ok classified => exact inner_define
  unfold read
  cases l.declarations with
  | nil => exact fun e he => by cases he
  | cons header members =>
    rw [readDeclarations]
    cases classifyLine options.display l.source 1 header with
    | error f => exact fun e he => by cases he
    | ok classified =>
      obtain ⟨full, c⟩ := classified
      dsimp only
      split
      · exact forall_mem_events_andThen inner_define
          (forall_mem_events_steps (hmember c.signature) (members.zipIdx 2))
      · exact List.forall_mem_singleton.2 (.classified _ _)

end Listing

/-- The number of declarations in a file: one for each line but the last. -/
def SourceFile.declarations (file : SourceFile) : Nat :=
  match file.listing with
  | .ok listing => listing.declarations.length
  | .error _ => 0

namespace Snapshot

open Progress

variable {options : ReadOptions} {file : SourceFile} {table : SymbolTable} {w : Workspace}
  {root : Text}

theorem accounts_readFile (hfine : (readFile options file table).failure = none) :
    Accounts table (readFile options file table) file.declarations
      [(some file.path, some file.declarations)] := by
  rw [readFile_eq, readEncounter] at hfine ⊢
  unfold SourceFile.declarations
  cases hlisting : file.listing with
  | error e =>
    rw [hlisting] at hfine
    cases hfine
  | ok listing =>
    rw [hlisting] at hfine
    have hread := (failure_andThen_eq_none_iff.1 hfine).1
    exact (Listing.accounts_readDeclarations hread).andThen hread ⟨rfl, rfl, rfl⟩

theorem inner_readFile (file : SourceFile) (table : SymbolTable) :
    ∀ e ∈ (readFile options file table).events, Inner options.duplicates e := by
  unfold readFile
  cases file.text with
  | error e => exact fun e he => by cases he
  | ok text =>
    exact forall_mem_events_andThen (Listing.inner_read _) fun _ =>
      List.forall_mem_singleton.2 (.listed _ _)

theorem inner_readRoot (options : ReadOptions) (w : Workspace) (root : Text) :
    ∀ e ∈ (readRoot options w root).events, Inner options.duplicates e := by
  unfold readRoot
  cases rootProblem? w root with
  | some reason => exact fun e he => by cases he
  | none =>
    exact forall_mem_events_andThen (forall_mem_events_steps inner_readFile _ _) fun _ e he => by
      cases he

theorem accounts_readRoot (hfine : (readRoot options w root).failure = none) :
    (w.walk root).failure = none ∧
    Accounts ∅ (readRoot options w root) ((w.walk root).files.map SourceFile.declarations).sum
      ((w.walk root).files.map fun file => (some file.path, some file.declarations)) := by
  unfold readRoot at hfine ⊢
  cases hproblem : rootProblem? w root with
  | some reason =>
    rw [hproblem] at hfine
    cases hfine
  | none =>
    rw [hproblem] at hfine
    obtain ⟨hfiles, hwalk⟩ := failure_andThen_eq_none_iff.1 hfine
    have hfile : ∀ file table, (readFile options file table).failure = none →
        Accounts table (readFile options file table) file.declarations
          [(some file.path, some file.declarations)] := fun _ _ => accounts_readFile
    have hsteps := accounts_steps hfile hfiles
    rw [← List.map_eq_flatMap] at hsteps
    refine ⟨hwalk, ?_⟩
    have haccounts : Accounts ∅ (readWalk options (w.walk root)) (_ + 0) (_ ++ []) :=
      hsteps.andThen hfiles (accounts_nil _ _)
    rwa [List.append_nil] at haccounts

/-- The declarations of some files are all accounted for. -/
structure Conserves (options : ReadOptions) (files : List SourceFile) (p : Progress) : Prop where
  /-- Each file is told of once, with the number of its declarations. -/
  listings_eq : listings p.events = files.map fun file => (some file.path, some file.declarations)
  classified : declared p.events = classifications p.events
  /-- Each declaration is in the table or has been replaced. -/
  size : declared p.events = p.table.size + overwrites p.events
  ended : (atBracket .readSnapshot .finish p.events).map (number? "symbol_count") =
    [some p.table.size]
  kept : options.duplicates = .fail → overwrites p.events = 0

/-- A snapshot that is read to its end has all its declarations in the table, but for those that
others have replaced. -/
theorem read_conserves (options : ReadOptions) (w : Workspace) (root : Text)
    (hfine : (read options w root).failure = none) :
    (w.walk root).failure = none ∧
      Conserves options (w.walk root).files (read options w root) := by
  have hroot : (readRoot options w root).failure = none := hfine
  obtain ⟨hwalk, haccounts⟩ := accounts_readRoot hroot
  have hinner := inner_readRoot options w root
  have hevents : (read options w root).events = .readStarted root ::
      (readRoot options w root).events ++
        [.readEnded root (read options w root).table.size
          (read options w root).table.classes.length] := by
    simp only [read, hroot]
  have htells : ∀ message, (read options w root).events.filter (tells message) =
      (readRoot options w root).events.filter (tells message) := fun message => by
    rw [hevents]
    exact filter_tells_bracketed rfl rfl message _
  have hlistings : listings (read options w root).events =
      (w.walk root).files.map fun file => (some file.path, some file.declarations) := by
    rw [← haccounts.listings_eq, listings, htells]
    rfl
  have hdeclared : declared (read options w root).events =
      ((w.walk root).files.map SourceFile.declarations).sum := by
    rw [declared, hlistings, List.filterMap_map, ← List.filterMap_eq_map]
    rfl
  have hoverwrites : overwrites (read options w root).events =
      overwrites (readRoot options w root).events := by
    rw [overwrites, htells]
    rfl
  refine ⟨hwalk, ?_⟩
  constructor
  · exact hlistings
  · rw [hdeclared, ← haccounts.classified, classifications, classifications, htells]
  · have hsize := haccounts.size
    rw [OrderedMap.size_empty, Nat.zero_add] at hsize
    rw [hdeclared, hoverwrites]
    exact hsize.symm
  · have hnone : atBracket .readSnapshot .finish (readRoot options w root).events = [] := by
      refine List.filter_eq_nil_iff.2 fun e he => ?_
      rw [(hinner e he).bracket?_eq_none]
      exact Bool.false_ne_true
    rw [hevents, atBracket_append, ← List.singleton_append, atBracket_append, hnone]
    rfl
  · intro hpolicy
    rw [hoverwrites]
    exact Inner.overwrites_eq_zero fun e he => hpolicy ▸ hinner e he

/-- Of four declarations two are replaced. -/
theorem read_conserves_tanks : (read default tanks "tanks".toList).failure = none ∧
    declared (read default tanks "tanks".toList).events = 4 ∧
    overwrites (read default tanks "tanks".toList).events = 2 ∧
    (tanks.walk "tanks".toList).failure = none ∧
    Conserves default (tanks.walk "tanks".toList).files (read default tanks "tanks".toList) := by
  have hcounts : (read default tanks "tanks".toList).failure = none ∧
      declared (read default tanks "tanks".toList).events = 4 ∧
      overwrites (read default tanks "tanks".toList).events = 2 := by
    simp only [read, tanks, readRoot_tanksWith]
    decide +kernel
  obtain ⟨hfine, hdeclared, hoverwrites⟩ := hcounts
  exact ⟨hfine, hdeclared, hoverwrites, read_conserves default tanks _ hfine⟩

end Snapshot
end Surface
