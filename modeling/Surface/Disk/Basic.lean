import Surface.OrderedMap
import Surface.Text.Basic

/-! # Disks

A disk holds files, directories and symbolic links, each at the location that lists the names on
the way to it. Locations are ordered name by name, and everything but the root stands in a
directory.
-/

namespace Surface

abbrev Location := List Text

inductive Node where
  | file (content : ByteArray)
  | directory
  | link (target : Text)

structure Disk where
  nodes : OrderedMap Location Node
  get?_root : nodes.get? [] = some .directory
  get?_parent (l : Location) (name : Text) :
    nodes.contains (l ++ [name]) = true → nodes.get? l = some .directory

namespace Disk

def node? (d : Disk) (l : Location) : Option Node := d.nodes.get? l

def isDirectory (d : Disk) (l : Location) : Bool :=
  match d.node? l with
  | some .directory => true
  | _ => false

theorem isDirectory_iff {d : Disk} {l : Location} :
    d.isDirectory l = true ↔ d.node? l = some .directory := by
  unfold isDirectory
  split <;> simp_all

/-- The disk that holds nothing but its root directory. -/
def empty : Disk where
  nodes := (∅ : OrderedMap Location Node).insert [] .directory
  get?_root := rfl
  get?_parent l name h := by
    rw [OrderedMap.contains, OrderedMap.get?_insert] at h
    simp at h

instance : Inhabited Disk := ⟨empty⟩

/-- Puts a node into a directory, in place of a file or link of the same name. Nothing happens
where there is no such directory or where a directory would be lost. -/
def put (d : Disk) (parent : Location) (name : Text) (node : Node) : Disk :=
  if h : d.isDirectory parent ∧ ¬d.isDirectory (parent ++ [name]) then
    { nodes := d.nodes.insert (parent ++ [name]) node
      get?_root := by
        rw [OrderedMap.get?_insert, if_neg (by simp)]
        exact d.get?_root
      get?_parent := fun l child hc => by
        rw [OrderedMap.contains, OrderedMap.get?_insert] at hc
        have hl : d.nodes.get? l = some .directory := by
          split at hc
          next he =>
            obtain ⟨rfl, -⟩ := List.append_inj' he rfl
            exact isDirectory_iff.mp h.1
          next => exact d.get?_parent l child hc
        rw [OrderedMap.get?_insert, if_neg]
        · exact hl
        · rintro rfl
          exact h.2 (isDirectory_iff.mpr hl) }
  else d

theorem node?_put (d : Disk) (parent : Location) (name : Text) (node : Node) (l : Location) :
    (d.put parent name node).node? l =
      if d.isDirectory parent ∧ ¬d.isDirectory (parent ++ [name]) ∧ l = parent ++ [name] then
        some node
      else d.node? l := by
  unfold put
  split
  next h => simp [node?, OrderedMap.get?_insert, h]
  next h =>
    rw [if_neg]
    exact fun hc => h ⟨hc.1, hc.2.1⟩

/-- Makes the directories on the way to a location that are not there yet. -/
def makeDirectories (d : Disk) (l : Location) : Disk :=
  (List.range l.length).foldl
    (fun d i =>
      match l[i]? with
      | some name =>
        if (d.node? (l.take i ++ [name])).isSome then d else d.put (l.take i) name .directory
      | none => d)
    d

/-- The names in a directory, in increasing order. -/
def children (d : Disk) (l : Location) : List Text :=
  d.nodes.keys.filterMap fun k =>
    match k.getLast? with
    | some name => if k = l ++ [name] then some name else none
    | none => none

theorem mem_children_iff {d : Disk} {l : Location} {name : Text} :
    name ∈ d.children l ↔ (d.node? (l ++ [name])).isSome := by
  have : (d.node? (l ++ [name])).isSome ↔ l ++ [name] ∈ d.nodes.keys := by
    rw [Option.isSome_iff_ne_none, node?, ne_eq, OrderedMap.get?_eq_none_iff, Decidable.not_not]
  rw [this, children, List.mem_filterMap]
  constructor
  · rintro ⟨k, hk, h⟩
    split at h
    next => split at h <;> simp_all
    next => simp at h
  · intro h
    exact ⟨_, h, by simp⟩

end Disk
end Surface
