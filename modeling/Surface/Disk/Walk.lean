import Surface.Disk.Path
import Surface.Failure

/-! # Walking a directory

All files below a directory, directory by directory and in each one in the order of the names.
Links are followed, and a link back to a directory that the walk is still in is a failure. So is a
directory whose path has grown too long to be opened. The walk ends at its first failure.
-/

namespace Surface

structure SourceFile where
  path : Text
  content : ByteArray

/-- The text of a file that is opened by its path, which a walk may have made too long for that. -/
def SourceFile.text (file : SourceFile) : Except FileError Text := do
  Path.check file.path
  Workspace.decode file.content

structure Walk where
  files : List SourceFile := []
  failure : Option Failure := none

/-- A directory that the walk is in: the path by which it was entered, and where it is. -/
structure Place where
  path : Text
  location : Location
  deriving DecidableEq

namespace Disk

def locations (d : Disk) : List Location := d.nodes.keys

/-- The length of the longest location. -/
def depth (d : Disk) : Nat := (d.locations.map List.length).foldr max 0

theorem length_le_depth {d : Disk} {l : Location} (h : l ∈ d.locations) : l.length ≤ d.depth := by
  unfold depth
  generalize d.locations = ls at h
  induction ls with
  | nil => simp at h
  | cons k ls ih =>
    rcases List.mem_cons.1 h with rfl | h
    · exact Nat.le_max_left ..
    · exact Nat.le_trans (ih h) (Nat.le_max_right ..)

theorem mem_locations {d : Disk} {l : Location} {node : Node} (h : d.node? l = some node) :
    l ∈ d.locations := by
  refine Decidable.byContradiction fun hn => ?_
  simp [node?, OrderedMap.get?_eq_none_iff.2 hn] at h

/-- How many locations the walk is not in. -/
def countOutside (d : Disk) (places : List Place) : Nat :=
  d.locations.countP fun l => !places.any fun p => p.location == l

theorem countOutside_le (d : Disk) (p q : Place) (places : List Place) :
    d.countOutside (p :: q :: places) ≤ d.countOutside (q :: places) :=
  List.countP_mono_left fun l _ => by simp

theorem countOutside_lt {d : Disk} {p : Place} {places : List Place}
    (hl : p.location ∈ d.locations) (hp : ∀ q ∈ places, q.location ≠ p.location) :
    d.countOutside (p :: places) < d.countOutside places := by
  unfold countOutside
  generalize d.locations = ls at hl
  induction ls with
  | nil => simp at hl
  | cons l ls ih =>
    have mono : ls.countP (fun l => !(p :: places).any fun q => q.location == l) ≤
        ls.countP (fun l => !places.any fun q => q.location == l) :=
      List.countP_mono_left fun l _ => by simp
    rw [List.countP_cons, List.countP_cons]
    by_cases h : l = p.location
    · subst h
      have : places.any (fun q => q.location == p.location) = false := by
        simpa using fun q hq => hp q hq
      simp only [List.any_cons, this, beq_self_eq_true, Bool.true_or] at mono ⊢
      simpa using Nat.lt_succ_of_le mono
    · have := ih (by grind)
      have he : (p.location == l) = false := by grind
      simp only [List.any_cons, he, Bool.false_or] at this ⊢
      omega

end Disk

namespace Walk

def loopMessage (child ancestor : Text) : Text :=
  "File system loop found: ".toList ++ child ++ " points to an ancestor ".toList ++ ancestor

def failed (path message : Text) : Walk := ⟨[], some (ioFailure "walk_snapshot" path message)⟩

mutual

/-- The walk of the directory `here`; the walk came there through the places `above`, the nearest
first. -/
def below (w : Workspace) (here : Place) (above : List Place) : Walk :=
  match Path.check here.path with
  | .ok () => entries w here above (w.disk.children here.location)
  | .error e => failed here.path e.message
  termination_by
    (w.disk.countOutside (here :: above), w.disk.depth - here.location.length, 1, 0)

def entries (w : Workspace) (here : Place) (above : List Place) : List Text → Walk
  | [] => {}
  | name :: rest =>
    let path := Path.join here.path name
    let location := here.location ++ [name]
    let first : Walk :=
      match _hn : w.disk.node? location with
      | none => {}
      | some (.file content) => ⟨[⟨path, content⟩], none⟩
      | some .directory => below w ⟨path, location⟩ (here :: above)
      | some (.link _) =>
        match w.resolve path with
        | .error e => failed path e.message
        | .ok target =>
          match _ht : w.disk.node? target with
          | some (.file content) => ⟨[⟨path, content⟩], none⟩
          | some .directory =>
            match _ha : (here :: above).find? fun p => p.location == target with
            | some ancestor => failed path (loopMessage path ancestor.path)
            | none => below w ⟨path, target⟩ (here :: above)
          | _ => {}
    match first.failure with
    | some _ => first
    | none =>
      let others := entries w here above rest
      ⟨first.files ++ others.files, others.failure⟩
  termination_by rest =>
    (w.disk.countOutside (here :: above), w.disk.depth - here.location.length, 0, rest.length)
  decreasing_by
    · have hle := w.disk.countOutside_le ⟨path, location⟩ here above
      have hd := Disk.length_le_depth (Disk.mem_locations _hn)
      simp only [path, location, List.length_append, List.length_cons, List.length_nil] at hd hle
      simp only [Prod.lex_def, List.length_append, List.length_cons, List.length_nil]
      omega
    · have hlt : w.disk.countOutside (⟨path, target⟩ :: here :: above) <
          w.disk.countOutside (here :: above) :=
        Disk.countOutside_lt (Disk.mem_locations _ht) fun q hq => by
          simpa using List.find?_eq_none.1 _ha q hq
      exact Prod.Lex.left _ _ hlt
    · simp only [Prod.lex_def]
      simp

end

end Walk

namespace Workspace

/-- The walk of the directory that a path leads to. -/
def walk (w : Workspace) (root : Text) : Walk :=
  match w.resolve root with
  | .ok location => Walk.below w ⟨root, location⟩ []
  | .error e => Walk.failed root e.message

end Workspace
end Surface
