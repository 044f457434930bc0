import Mathlib.Data.List.Induction
import Surface.Disk.Walk
import Surface.Proofs.OrderedMap
import Surface.Proofs.Text.Bytes

/-! # What a walk comes upon

Seen from a directory, a list of names leads to a file, to an obstacle, or to neither. The walk
yields the files in the order of these lists, compared name by name, up to the first obstacle.
-/

namespace Surface

/-- A file, or the failure with which an obstacle ends a walk. -/
abbrev Encounter := Except Failure SourceFile

namespace Disk

theorem eq_append_of_child {l k : Location} {name : Text} (h : (match k.getLast? with
    | some name => if k = l ++ [name] then some name else none
    | none => none) = some name) : k = l ++ [name] := by
  split at h
  · split at h
    next hk =>
      cases h
      exact hk
    next => cases h
  · cases h

theorem pairwise_children (d : Disk) (l : Location) :
    (d.children l).Pairwise fun a b => compare a b = .lt := by
  rw [children, List.pairwise_filterMap]
  refine d.nodes.pairwise_keys.imp fun {k k'} hlt name hk name' hk' => ?_
  rw [eq_append_of_child hk, eq_append_of_child hk', compare_append_left,
    List.compare_cons_cons] at hlt
  cases hcompare : compare name name' <;> simp_all

/-- Below anything but a directory there is nothing. -/
theorem node?_append {d : Disk} {l : Location} (h : d.node? l ≠ some .directory)
    (names : Location) : d.node? (l ++ names) = if names = [] then d.node? l else none := by
  induction names using List.reverseRecOn with
  | nil => rw [List.append_nil, if_pos rfl]
  | append_singleton names name ih =>
    rw [if_neg (by simp), ← List.append_assoc]
    by_contra hnode
    have hparent : d.node? (l ++ names) = some .directory :=
      d.get?_parent _ _ (Option.isSome_iff_ne_none.2 hnode)
    rw [ih] at hparent
    by_cases hnames : names = []
    · rw [if_pos hnames] at hparent
      exact h hparent
    · rw [if_neg hnames] at hparent
      cases hparent

end Disk

namespace Walk

/-- One walk behind another, unless that one has failed. -/
def append (v u : Walk) : Walk :=
  match v.failure with
  | some _ => v
  | none => ⟨v.files ++ u.files, u.failure⟩

/-- Yields the files in front of the first obstacle. -/
def ofEncounters : List Encounter → Walk
  | [] => {}
  | .ok file :: rest => ⟨file :: (ofEncounters rest).files, (ofEncounters rest).failure⟩
  | .error f :: _ => ⟨[], some f⟩

theorem ofEncounters_append (es more : List Encounter) :
    ofEncounters (es ++ more) = (ofEncounters es).append (ofEncounters more) := by
  induction es with
  | nil => rfl
  | cons e es ih =>
    cases e with
    | error f => rfl
    | ok file =>
      rw [List.cons_append, ofEncounters, ih, ofEncounters]
      obtain ⟨files, failure⟩ := ofEncounters es
      cases failure <;> rfl

/-- Where a name in a directory leads when links are followed. -/
inductive Target where
  | nothing
  | file (content : ByteArray)
  | directory (location : Location)
  | obstacle (message : Text)

variable {w : Workspace} {here : Place} {above : List Place} {name : Text} {l : Location}

def target (w : Workspace) (here : Place) (above : List Place) (name : Text) : Target :=
  match w.disk.node? (here.location ++ [name]) with
  | none => .nothing
  | some (.file content) => .file content
  | some .directory => .directory (here.location ++ [name])
  | some (.link _) =>
    match w.resolve (Path.join here.path name) with
    | .error e => .obstacle e.message
    | .ok location =>
      match w.disk.node? location with
      | some (.file content) => .file content
      | some .directory =>
        match (here :: above).find? fun p => p.location == location with
        | some ancestor => .obstacle (loopMessage (Path.join here.path name) ancestor.path)
        | none => .directory location
      | _ => .nothing

def entry (w : Workspace) (here : Place) (above : List Place) (name : Text) : Walk :=
  match target w here above name with
  | .nothing => {}
  | .file content => ⟨[⟨Path.join here.path name, content⟩], none⟩
  | .directory location => below w ⟨Path.join here.path name, location⟩ (here :: above)
  | .obstacle message => failed (Path.join here.path name) message

theorem below_of_check (w : Workspace) (h : Path.check here.path = .ok ()) (above : List Place) :
    below w here above = entries w here above (w.disk.children here.location) := by
  rw [below, h]

theorem entries_cons (w : Workspace) (here : Place) (above : List Place) (name : Text)
    (rest : List Text) : entries w here above (name :: rest) =
      (entry w here above name).append (entries w here above rest) := by
  rw [entries]
  have hfirst : ∀ first : Walk, first = entry w here above name →
      (match first.failure with
        | some _ => first
        | none => ⟨first.files ++ (entries w here above rest).files,
            (entries w here above rest).failure⟩) =
        (entry w here above name).append (entries w here above rest) := by
    rintro _ rfl
    rfl
  apply hfirst
  unfold entry target
  split
  next hnode => rw [hnode]
  next hnode => rw [hnode]
  next hnode => rw [hnode]
  next hnode =>
    rw [hnode]
    dsimp only
    cases w.resolve (Path.join here.path name) with
    | error e => rfl
    | ok location =>
      dsimp only
      split
      next hfile => rw [hfile]
      next hdirectory =>
        rw [hdirectory]
        dsimp only
        split
        next hloop => rw [hloop]
        next hnew => rw [hnew]
      next hfile hdirectory =>
        cases hl : w.disk.node? location with
        | none => rfl
        | some node =>
          cases node with
          | file content => exact absurd hl (hfile content)
          | directory => exact absurd hl hdirectory
          | link _ => rfl

/-- A directory that can be entered is deeper on the disk, or the walk is not in it yet. -/
theorem descends_of_target (h : target w here above name = .directory l) (path : Text) :
    w.disk.countOutside (⟨path, l⟩ :: here :: above) < w.disk.countOutside (here :: above) ∨
      w.disk.countOutside (⟨path, l⟩ :: here :: above) ≤ w.disk.countOutside (here :: above) ∧
        w.disk.depth - l.length < w.disk.depth - here.location.length := by
  have hle := w.disk.countOutside_le ⟨path, l⟩ here above
  unfold target at h
  split at h
  next => cases h
  next => cases h
  next hnode =>
    cases h
    have hdepth := Disk.length_le_depth (Disk.mem_locations hnode)
    rw [List.length_append, List.length_singleton] at hdepth ⊢
    exact .inr ⟨hle, by omega⟩
  next =>
    split at h
    next => cases h
    next =>
      split at h
      next => cases h
      next hdirectory =>
        split at h
        next => cases h
        next hnew =>
          cases h
          refine .inl (Disk.countOutside_lt (Disk.mem_locations hdirectory) fun q hq => ?_)
          simpa using List.find?_eq_none.1 hnew q hq
      next => cases h

/-- What the walk comes upon where the names lead from the directory `here`. -/
def encounter? (w : Workspace) (here : Place) (above : List Place) : Location → Option Encounter
  | [] =>
    match Path.check here.path with
    | .ok () => none
    | .error e => some (.error (ioFailure "walk_snapshot" here.path e.message))
  | name :: rest =>
    match Path.check here.path, target w here above name with
    | .ok (), .file content =>
      if rest = [] then some (.ok ⟨Path.join here.path name, content⟩) else none
    | .ok (), .obstacle message =>
      if rest = [] then some (.error (ioFailure "walk_snapshot" (Path.join here.path name) message))
      else none
    | .ok (), .directory l => encounter? w ⟨Path.join here.path name, l⟩ (here :: above) rest
    | _, _ => none

/-- The list has all that is found, in the order of the names. -/
structure Lists (found : Location → Option Encounter) (met : List (Location × Encounter)) :
    Prop where
  sorted : met.Pairwise fun a b => compare a.1 b.1 = .lt
  mem_iff {names : Location} {e : Encounter} : (names, e) ∈ met ↔ found names = some e

namespace Lists

variable {found : Location → Option Encounter}

theorem nil (h : ∀ names, found names = none) : Lists found [] :=
  ⟨.nil, by simp [h]⟩

theorem singleton {e : Encounter} (h : ∀ names, found names = if names = [] then some e else none) :
    Lists found [([], e)] := by
  refine ⟨List.pairwise_singleton _ _, fun {names e'} => ?_⟩
  rw [h]
  by_cases hn : names = [] <;> simp [hn, eq_comm]

/-- What is found behind each of the names, one name after another. -/
theorem flatMap {met : Text → List (Location × Encounter)} {names : List Text}
    (hmet : ∀ name, Lists (fun rest => found (name :: rest)) (met name))
    (hsorted : names.Pairwise fun a b => compare a b = .lt) (hnil : found [] = none)
    (hnames : ∀ name rest, found (name :: rest) ≠ none → name ∈ names) :
    Lists found (names.flatMap fun name => (met name).map fun p => (name :: p.1, p.2)) := by
  constructor
  · rw [List.pairwise_flatMap]
    refine ⟨fun name _ => List.pairwise_map.2 ((hmet name).sorted.imp fun {a b} hab => ?_),
      hsorted.imp fun {a b} hab x hx y hy => ?_⟩
    · rw [List.compare_cons_cons, Std.ReflOrd.compare_self]
      exact hab
    · obtain ⟨p, -, rfl⟩ := List.mem_map.1 hx
      obtain ⟨q, -, rfl⟩ := List.mem_map.1 hy
      rw [List.compare_cons_cons, hab]
      rfl
  · intro names' e
    rw [List.mem_flatMap]
    constructor
    · rintro ⟨name, -, hmem⟩
      obtain ⟨p, hp, heq⟩ := List.mem_map.1 hmem
      cases heq
      exact (hmet name).mem_iff.1 hp
    · intro hfound
      cases names' with
      | nil =>
        rw [hnil] at hfound
        cases hfound
      | cons name rest =>
        refine ⟨name, hnames name rest (by simp [hfound]), List.mem_map.2 ⟨(rest, e), ?_, rfl⟩⟩
        exact (hmet name).mem_iff.2 hfound

end Lists

/-- All that is found comes, in the order of the names, up to the first obstacle. -/
def Yields (v : Walk) (found : Location → Option Encounter) : Prop :=
  ∃ met, Lists found met ∧ v = ofEncounters (met.map Prod.snd)

theorem mem_children_of_encounter? {rest : Location}
    (h : encounter? w here above (name :: rest) ≠ none) :
    name ∈ w.disk.children here.location := by
  rw [Disk.mem_children_iff, Option.isSome_iff_ne_none]
  intro hnone
  have htarget : target w here above name = .nothing := by
    rw [target, hnone]
  rw [encounter?, htarget] at h
  cases hcheck : Path.check here.path <;> simp [hcheck] at h

theorem entries_eq_ofEncounters {met : Text → List (Location × Encounter)}
    (h : ∀ name, entry w here above name = ofEncounters ((met name).map Prod.snd))
    (names : List Text) : entries w here above names = ofEncounters
      ((names.flatMap fun name => (met name).map fun p => (name :: p.1, p.2)).map Prod.snd) := by
  induction names with
  | nil => rw [entries]; rfl
  | cons name names ih =>
    have hmap : ((met name).map fun p => (name :: p.1, p.2)).map Prod.snd =
        (met name).map Prod.snd := List.map_map
    rw [entries_cons, h, ih, List.flatMap_cons, List.map_append, ofEncounters_append, hmap]

theorem yields_entry (hopen : Path.check here.path = .ok ())
    (hinside : ∀ l, target w here above name = .directory l →
      Yields (below w ⟨Path.join here.path name, l⟩ (here :: above))
        (encounter? w ⟨Path.join here.path name, l⟩ (here :: above))) :
    Yields (entry w here above name) fun rest => encounter? w here above (name :: rest) := by
  unfold entry
  cases htarget : target w here above name with
  | nothing => exact ⟨[], .nil fun rest => by rw [encounter?, hopen, htarget], rfl⟩
  | file content =>
    exact ⟨_, .singleton fun rest => by rw [encounter?, hopen, htarget], rfl⟩
  | obstacle message =>
    exact ⟨_, .singleton fun rest => by rw [encounter?, hopen, htarget], rfl⟩
  | directory l =>
    obtain ⟨met, hmet, hwalk⟩ := hinside l htarget
    refine ⟨met, ⟨hmet.sorted, fun {rest e} => ?_⟩, hwalk⟩
    rw [encounter?, hopen, htarget]
    exact hmet.mem_iff

/-- The walk of a directory yields what it comes upon there. -/
theorem yields_below (w : Workspace) (here : Place) (above : List Place) :
    Yields (below w here above) (encounter? w here above) := by
  cases hcheck : Path.check here.path with
  | error e =>
    refine ⟨[([], .error (ioFailure "walk_snapshot" here.path e.message))],
      .singleton fun names => ?_, ?_⟩
    · cases names <;> simp [encounter?, hcheck]
    · rw [below, hcheck]
      rfl
  | ok _ =>
    have hname : ∀ name,
        Yields (entry w here above name) fun rest => encounter? w here above (name :: rest) :=
      fun name => yields_entry hcheck fun l hl =>
        yields_below w ⟨Path.join here.path name, l⟩ (here :: above)
    choose met hmet hwalk using hname
    refine ⟨_, .flatMap hmet (w.disk.pairwise_children here.location) ?_ ?_, ?_⟩
    · rw [encounter?, hcheck]
    · exact fun name rest => mem_children_of_encounter?
    · rw [below_of_check w hcheck]
      exact entries_eq_ofEncounters hwalk _
  termination_by (w.disk.countOutside (here :: above), w.disk.depth - here.location.length)
  decreasing_by
    rcases descends_of_target hl (Path.join here.path name) with hlt | ⟨hle, hlt⟩
    · exact Prod.Lex.left _ _ hlt
    · rcases Nat.lt_or_eq_of_le hle with hlt' | heq
      · exact Prod.Lex.left _ _ hlt'
      · rw [heq]
        exact Prod.Lex.right _ hlt

/-- No links below the directory, and no directory whose path is too long to be opened. -/
structure Plain (w : Workspace) (here : Place) : Prop where
  noLink (names : Location) (target : Text) :
    w.disk.node? (here.location ++ names) ≠ some (.link target)
  opens (names : Location) : w.disk.node? (here.location ++ names) = some .directory →
    Path.check (names.foldl Path.join here.path) = .ok ()

/-- The file that stands below a directory under the given names. -/
def fileBelow? (d : Disk) (here : Place) (names : Location) : Option SourceFile :=
  match d.node? (here.location ++ names) with
  | some (.file content) => some ⟨names.foldl Path.join here.path, content⟩
  | _ => none

theorem fileBelow?_cons (d : Disk) (here : Place) (name : Text) (names : Location) :
    fileBelow? d here (name :: names) =
      fileBelow? d ⟨Path.join here.path name, here.location ++ [name]⟩ names := by
  have happend : here.location ++ name :: names = here.location ++ [name] ++ names := by simp
  rw [fileBelow?, fileBelow?, happend]
  rfl

theorem Plain.below (h : Plain w here) (name : Text) :
    Plain w ⟨Path.join here.path name, here.location ++ [name]⟩ where
  noLink names target := by
    have hlink := h.noLink (name :: names) target
    rwa [List.append_cons] at hlink
  opens names hdirectory := by
    rw [← List.append_cons] at hdirectory
    exact h.opens (name :: names) hdirectory

/-- In a tree without links the walk comes upon the files, each under its own names. -/
theorem Plain.encounter? (h : Plain w here) (hhere : w.disk.node? here.location = some .directory)
    (above : List Place) (names : Location) :
    Walk.encounter? w here above names = (fileBelow? w.disk here names).map .ok := by
  induction names generalizing here above with
  | nil =>
    have hopen : Path.check here.path = .ok () := h.opens [] (by rwa [List.append_nil])
    rw [Walk.encounter?, hopen, fileBelow?, List.append_nil, hhere]
    rfl
  | cons name names ih =>
    have hopen : Path.check here.path = .ok () := h.opens [] (by rwa [List.append_nil])
    rw [fileBelow?_cons, Walk.encounter?, hopen, target]
    cases hnode : w.disk.node? (here.location ++ [name]) with
    | none =>
      have hnothing : fileBelow? w.disk ⟨Path.join here.path name, here.location ++ [name]⟩ names =
          none := by
        rw [fileBelow?, Disk.node?_append (by simp [hnode])]
        simp [hnode]
      rw [hnothing]
      rfl
    | some node =>
      cases node with
      | file content =>
        rw [fileBelow?, Disk.node?_append (by simp [hnode]), hnode]
        by_cases hnames : names = [] <;> simp [hnames]
      | directory => exact ih (h.below name) hnode (here :: above)
      | link target => exact absurd hnode (h.noLink [name] target)

end Walk
end Surface
