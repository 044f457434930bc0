/-! # Ordered maps

A finite map kept as its list of entries in strictly increasing key order. The order is part of
the type, so two maps are equal exactly when all their look-ups agree.
-/

namespace Surface

structure OrderedMap (κ ν : Type) [Ord κ] where
  entries : List (κ × ν)
  sorted : entries.Pairwise fun a b => compare a.1 b.1 = .lt

namespace OrderedMap

variable {κ ν : Type} [Ord κ]

instance [DecidableEq κ] [DecidableEq ν] : DecidableEq (OrderedMap κ ν) := fun m n =>
  decidable_of_iff (m.entries = n.entries) (by cases m; cases n; simp)

def empty : OrderedMap κ ν := ⟨[], .nil⟩

instance : EmptyCollection (OrderedMap κ ν) := ⟨empty⟩
instance : Inhabited (OrderedMap κ ν) := ⟨empty⟩

def lookUp (k : κ) : List (κ × ν) → Option ν
  | [] => none
  | (k', v) :: rest => if compare k k' = .eq then some v else lookUp k rest

def get? (m : OrderedMap κ ν) (k : κ) : Option ν := lookUp k m.entries

def contains (m : OrderedMap κ ν) (k : κ) : Bool := (m.get? k).isSome

def keys (m : OrderedMap κ ν) : List κ := m.entries.map Prod.fst

def size (m : OrderedMap κ ν) : Nat := m.entries.length

def isEmpty (m : OrderedMap κ ν) : Bool := m.entries.isEmpty

@[simp] theorem entries_empty : (∅ : OrderedMap κ ν).entries = [] := rfl

@[simp] theorem get?_empty (k : κ) : (∅ : OrderedMap κ ν).get? k = none := rfl

@[simp] theorem size_empty : (∅ : OrderedMap κ ν).size = 0 := rfl

/-- Places an entry in key order and replaces the entry of the same key, if there is one. -/
def place (k : κ) (v : ν) : List (κ × ν) → List (κ × ν)
  | [] => [(k, v)]
  | (k', v') :: rest =>
    match compare k k' with
    | .lt => (k, v) :: (k', v') :: rest
    | .eq => (k, v) :: rest
    | .gt => (k', v') :: place k v rest

theorem mem_place {k : κ} {v : ν} {e : κ × ν} {l : List (κ × ν)} (h : e ∈ place k v l) :
    e = (k, v) ∨ e ∈ l := by
  induction l with
  | nil => simpa [place] using h
  | cons a l ih => simp only [place] at h; split at h <;> grind

/-- The entries whose keys have a property. -/
def filter (p : κ → Bool) (m : OrderedMap κ ν) : OrderedMap κ ν :=
  ⟨m.entries.filter fun e => p e.1, m.sorted.filter _⟩

def erase (m : OrderedMap κ ν) (k : κ) : OrderedMap κ ν := m.filter fun k' => compare k k' != .eq

section Lawful

variable [Std.TransOrd κ] [Std.LawfulEqOrd κ]

theorem sorted_place (k : κ) (v : ν) {l : List (κ × ν)}
    (h : l.Pairwise fun a b => compare a.1 b.1 = .lt) :
    (place k v l).Pairwise fun a b => compare a.1 b.1 = .lt := by
  induction l with
  | nil => simp [place]
  | cons a l ih =>
    obtain ⟨hd, tl⟩ := List.pairwise_cons.1 h
    simp only [place]
    split
    next hlt =>
      refine List.pairwise_cons.2 ⟨fun b hb => ?_, h⟩
      rcases List.mem_cons.1 hb with rfl | hb
      · exact hlt
      · exact Std.TransCmp.lt_trans hlt (hd b hb)
    next heq =>
      cases Std.LawfulEqOrd.eq_of_compare heq
      exact List.pairwise_cons.2 ⟨hd, tl⟩
    next hgt =>
      refine List.pairwise_cons.2 ⟨fun b hb => ?_, ih tl⟩
      rcases mem_place hb with rfl | hb
      · exact Std.OrientedCmp.lt_of_gt hgt
      · exact hd b hb

def insert (m : OrderedMap κ ν) (k : κ) (v : ν) : OrderedMap κ ν :=
  ⟨place k v m.entries, sorted_place k v m.sorted⟩

/-- Later rows replace earlier rows of the same key. -/
def ofList (rows : List (κ × ν)) : OrderedMap κ ν :=
  rows.foldl (fun m row => m.insert row.1 row.2) ∅

omit [Std.TransOrd κ] in
theorem lookUp_place [DecidableEq κ] (k k' : κ) (v : ν) (l : List (κ × ν)) :
    lookUp k' (place k v l) = if k' = k then some v else lookUp k' l := by
  induction l with
  | nil => simp [place, lookUp]
  | cons a l ih =>
    obtain ⟨ka, va⟩ := a
    simp only [place]
    split
    next => simp [lookUp]
    next h => cases Std.LawfulEqOrd.eq_of_compare h; simp only [lookUp]; grind
    next h =>
      have : k ≠ ka := by rintro rfl; simp at h
      simp only [lookUp, ih, Std.LawfulEqOrd.compare_eq_iff_eq]
      grind

theorem get?_insert [DecidableEq κ] (m : OrderedMap κ ν) (k k' : κ) (v : ν) :
    (m.insert k v).get? k' = if k' = k then some v else m.get? k' :=
  lookUp_place k k' v m.entries

omit [Std.TransOrd κ] in
theorem mem_entries_iff {m : OrderedMap κ ν} {k : κ} {v : ν} :
    (k, v) ∈ m.entries ↔ m.get? k = some v := by
  obtain ⟨l, h⟩ := m
  simp only [get?]
  induction l with
  | nil => simp [lookUp]
  | cons a l ih =>
    obtain ⟨ka, va⟩ := a
    obtain ⟨hd, tl⟩ := List.pairwise_cons.1 h
    simp only [lookUp, List.mem_cons, Prod.mk.injEq, ih tl]
    split
    next hk =>
      cases Std.LawfulEqOrd.eq_of_compare hk
      have : lookUp k l ≠ some v := fun hv => by simpa using hd _ ((ih tl).2 hv)
      grind
    next hk =>
      have : k ≠ ka := by rintro rfl; simp at hk
      simp [this]

omit [Std.TransOrd κ] in
theorem get?_eq_none_iff {m : OrderedMap κ ν} {k : κ} : m.get? k = none ↔ k ∉ m.keys := by
  rw [Option.eq_none_iff_forall_ne_some]
  simp [keys, ← mem_entries_iff]

omit [Std.TransOrd κ] in
theorem get?_filter (p : κ → Bool) (m : OrderedMap κ ν) (k : κ) :
    (m.filter p).get? k = if p k then m.get? k else none := by
  apply Option.ext
  intro v
  rw [← mem_entries_iff]
  simp only [filter, List.mem_filter, mem_entries_iff]
  split <;> simp_all

omit [Std.TransOrd κ] in
theorem get?_erase [DecidableEq κ] (m : OrderedMap κ ν) (k k' : κ) :
    (m.erase k).get? k' = if k' = k then none else m.get? k' := by
  simp only [erase, get?_filter, bne_iff_ne, ne_eq, Std.LawfulEqOrd.compare_eq_iff_eq]
  grind

@[ext] theorem ext {m n : OrderedMap κ ν} (h : ∀ k, m.get? k = n.get? k) : m = n := by
  have hmem : ∀ e, e ∈ m.entries ↔ e ∈ n.entries := fun (k, v) => by
    rw [mem_entries_iff, mem_entries_iff, h]
  have nodup : ∀ {l : List (κ × ν)}, (l.Pairwise fun a b => compare a.1 b.1 = .lt) → l.Nodup :=
    fun hl => hl.imp fun hab => by rintro rfl; simp at hab
  have hp : m.entries.Perm n.entries :=
    (List.perm_ext_iff_of_nodup (nodup m.sorted) (nodup n.sorted)).2 hmem
  have := hp.eq_of_pairwise (fun a b _ _ hab hba => by
    have := Std.OrientedCmp.gt_of_lt hab; simp [hba] at this) m.sorted n.sorted
  cases m; cases n; simpa using this

end Lawful
end OrderedMap
end Surface
