import Surface.OrderedMap

/-! # Entries and rows of ordered maps

A key has at most one entry, so all that a map says about a key is what it looks up. Rows with
distinct keys, inserted one after another, are all kept, and the entries of a map inserted in any
order give the map back.
-/

namespace Surface.OrderedMap

variable {κ ν : Type} [Ord κ]

theorem nodup_of_pairwise_lt [Std.LawfulEqOrd κ] {l : List κ}
    (h : l.Pairwise fun a b => compare a b = .lt) : l.Nodup := by
  refine h.imp fun hab => ?_
  rintro rfl
  simp at hab

theorem pairwise_keys (m : OrderedMap κ ν) : m.keys.Pairwise fun a b => compare a b = .lt :=
  List.pairwise_map.2 m.sorted

theorem nodup_keys [Std.LawfulEqOrd κ] (m : OrderedMap κ ν) : m.keys.Nodup :=
  nodup_of_pairwise_lt m.pairwise_keys

theorem isEmpty_iff {m : OrderedMap κ ν} : m.isEmpty = true ↔ m = ∅ := by
  obtain ⟨entries, sorted⟩ := m
  cases entries with
  | nil => exact ⟨fun _ => rfl, fun _ => rfl⟩
  | cons e l =>
    constructor
    · intro h
      cases h
    · intro h
      cases congrArg OrderedMap.entries h

theorem mem_keys_iff [Std.LawfulEqOrd κ] {m : OrderedMap κ ν} {k : κ} :
    k ∈ m.keys ↔ m.contains k = true := by
  rw [contains, Option.isSome_iff_ne_none, Ne, get?_eq_none_iff, Classical.not_not]

theorem contains_of_mem_entries [Std.LawfulEqOrd κ] {m : OrderedMap κ ν} {e : κ × ν}
    (h : e ∈ m.entries) : m.contains e.1 = true := by
  rw [contains, mem_entries_iff.1 h]
  rfl

theorem filter_key_entries [Std.LawfulEqOrd κ] [DecidableEq κ] (m : OrderedMap κ ν) (k : κ) :
    (m.entries.filter fun e => e.1 = k) = ((m.get? k).map fun v => (k, v)).toList := by
  obtain ⟨l, h⟩ := m
  simp only [get?]
  induction l with
  | nil => rfl
  | cons e l ih =>
    obtain ⟨hd, tl⟩ := List.pairwise_cons.1 h
    obtain ⟨k', v⟩ := e
    rw [List.filter_cons, lookUp]
    by_cases hk : k' = k
    · subst hk
      have hnone : l.filter (fun e => e.1 = k') = [] := by
        rw [List.filter_eq_nil_iff]
        intro b hb hbk
        have hlt := hd b hb
        rw [of_decide_eq_true hbk] at hlt
        simp at hlt
      simp [hnone]
    · have hne : ¬ compare k k' = .eq := fun h => hk (Std.LawfulEqOrd.eq_of_compare h).symm
      simpa [hk, hne] using ih tl

def values (m : OrderedMap κ ν) : List ν := m.entries.map Prod.snd

section Values

variable {μ : Type} (f : ν → μ)

def mapValues (m : OrderedMap κ ν) : OrderedMap κ μ :=
  ⟨m.entries.map fun e => (e.1, f e.2), List.pairwise_map.2 m.sorted⟩

@[simp] theorem entries_mapValues (m : OrderedMap κ ν) :
    (m.mapValues f).entries = m.entries.map fun e => (e.1, f e.2) := rfl

@[simp] theorem size_mapValues (m : OrderedMap κ ν) : (m.mapValues f).size = m.size :=
  List.length_map _

@[simp] theorem keys_mapValues (m : OrderedMap κ ν) : (m.mapValues f).keys = m.keys := by
  simp [keys]

@[simp] theorem get?_mapValues (m : OrderedMap κ ν) (k : κ) :
    (m.mapValues f).get? k = (m.get? k).map f := by
  obtain ⟨l, h⟩ := m
  simp only [get?, entries_mapValues]
  clear h
  induction l with
  | nil => rfl
  | cons e l ih =>
    rw [List.map_cons, lookUp, lookUp, ih]
    split <;> rfl

@[simp] theorem contains_mapValues (m : OrderedMap κ ν) (k : κ) :
    (m.mapValues f).contains k = m.contains k := by
  rw [contains, get?_mapValues, Option.isSome_map, contains]

theorem mapValues_insert [Std.TransOrd κ] [Std.LawfulEqOrd κ] [DecidableEq κ] (m : OrderedMap κ ν)
    (k : κ) (v : ν) : (m.insert k v).mapValues f = (m.mapValues f).insert k (f v) := by
  apply OrderedMap.ext
  intro k'
  rw [get?_mapValues, get?_insert, get?_insert, get?_mapValues]
  split <;> rfl

theorem keys_eq_of_contains [Std.TransOrd κ] [Std.LawfulEqOrd κ] {m : OrderedMap κ ν}
    {n : OrderedMap κ μ} (h : ∀ k, m.contains k = n.contains k) : m.keys = n.keys := by
  have hsame : m.mapValues (fun _ => ()) = n.mapValues fun _ => () := by
    apply OrderedMap.ext
    intro k
    have hk := h k
    unfold contains at hk
    rw [get?_mapValues, get?_mapValues]
    cases hm : m.get? k <;> cases hn : n.get? k <;> simp_all
  calc m.keys = (m.mapValues fun _ => ()).keys := (keys_mapValues _ m).symm
    _ = (n.mapValues fun _ => ()).keys := by rw [hsame]
    _ = n.keys := keys_mapValues _ n

end Values

section Rows

variable [Std.TransOrd κ] [Std.LawfulEqOrd κ] [DecidableEq κ]

omit [DecidableEq κ] in
theorem contains_insert {m : OrderedMap κ ν} {k k' : κ} {v : ν} :
    (m.insert k v).contains k' = true ↔ k' = k ∨ m.contains k' = true := by
  classical
  rw [contains, contains, get?_insert]
  by_cases hk : k' = k <;> simp [hk]

omit [DecidableEq κ] in
theorem length_place (k : κ) (v : ν) {l : List (κ × ν)}
    (h : l.Pairwise fun a b => compare a.1 b.1 = .lt) :
    (place k v l).length = if (lookUp k l).isSome then l.length else l.length + 1 := by
  induction l with
  | nil => rfl
  | cons e l ih =>
    obtain ⟨k', v'⟩ := e
    obtain ⟨hd, tl⟩ := List.pairwise_cons.1 h
    simp only [place, lookUp]
    split
    next hlt =>
      have hnone : lookUp k l = none := by
        refine (get?_eq_none_iff (m := ⟨l, tl⟩)).2 fun hmem => ?_
        obtain ⟨e, he, rfl⟩ := List.mem_map.1 hmem
        have hgt := Std.OrientedCmp.gt_of_lt (hd e he)
        rw [hlt] at hgt
        cases hgt
      simp [hlt, hnone]
    next heq => simp [heq]
    next hgt =>
      simp only [hgt, List.length_cons, ih tl, reduceCtorEq, if_false]
      split <;> rfl

omit [DecidableEq κ] in
/-- Only a new key makes the map larger. -/
theorem size_insert (m : OrderedMap κ ν) (k : κ) (v : ν) :
    (m.insert k v).size = if m.contains k then m.size else m.size + 1 := length_place k v m.sorted

theorem insert_insert (m : OrderedMap κ ν) (k : κ) (v v' : ν) :
    (m.insert k v).insert k v' = m.insert k v' := by
  apply OrderedMap.ext
  intro other
  simp only [get?_insert]
  split <;> rfl

def insertAll (m : OrderedMap κ ν) (rows : List (κ × ν)) : OrderedMap κ ν :=
  rows.foldl (fun m row => m.insert row.1 row.2) m

omit [DecidableEq κ] in
theorem insertAll_append (m : OrderedMap κ ν) (rows more : List (κ × ν)) :
    m.insertAll (rows ++ more) = (m.insertAll rows).insertAll more := List.foldl_append

theorem get?_insertAll_of_notMem {rows : List (κ × ν)} {k : κ} (h : k ∉ rows.map Prod.fst)
    (m : OrderedMap κ ν) : (m.insertAll rows).get? k = m.get? k := by
  induction rows generalizing m with
  | nil => rfl
  | cons row rows ih =>
    rw [List.map_cons, List.mem_cons, not_or] at h
    rw [insertAll, List.foldl_cons]
    exact (ih h.2 (m.insert row.1 row.2)).trans (by rw [get?_insert, if_neg h.1])

theorem get?_insertAll_of_mem {rows : List (κ × ν)} (hrows : (rows.map Prod.fst).Nodup) {k : κ}
    {v : ν} (h : (k, v) ∈ rows) (m : OrderedMap κ ν) : (m.insertAll rows).get? k = some v := by
  induction rows generalizing m with
  | nil => cases h
  | cons row rows ih =>
    rw [List.map_cons, List.nodup_cons] at hrows
    rw [insertAll, List.foldl_cons]
    rcases List.mem_cons.1 h with rfl | h
    · exact (get?_insertAll_of_notMem hrows.1 _).trans (by rw [get?_insert, if_pos rfl])
    · exact ih hrows.2 h _

/-- Of several rows with the same key the last one is kept. -/
theorem get?_insertAll (m : OrderedMap κ ν) (rows : List (κ × ν)) (k : κ) :
    (m.insertAll rows).get? k =
      match (rows.filter fun row => row.1 = k).getLast? with
      | some row => some row.2
      | none => m.get? k := by
  induction rows generalizing m with
  | nil => rfl
  | cons row rows ih =>
    have hcons : m.insertAll (row :: rows) = (m.insert row.1 row.2).insertAll rows := rfl
    rw [hcons, ih, get?_insert, List.filter_cons]
    by_cases hk : row.1 = k
    · subst hk
      cases hlast : (rows.filter fun r => r.1 = row.1).getLast? with
      | none => simp [List.getLast?_eq_none_iff.1 hlast]
      | some r => simp [List.getLast?_cons, hlast]
    · simp [hk, Ne.symm hk]

/-- Rows with distinct keys can be inserted in any order. -/
theorem insertAll_perm {rows more : List (κ × ν)} (h : rows.Perm more)
    (hrows : (rows.map Prod.fst).Nodup) (m : OrderedMap κ ν) :
    m.insertAll rows = m.insertAll more := by
  have hkeys := h.map Prod.fst
  apply OrderedMap.ext
  intro k
  by_cases hk : k ∈ rows.map Prod.fst
  · obtain ⟨row, hrow, rfl⟩ := List.mem_map.1 hk
    rw [get?_insertAll_of_mem hrows hrow,
      get?_insertAll_of_mem (hkeys.nodup_iff.1 hrows) (h.mem_iff.1 hrow)]
  · rw [get?_insertAll_of_notMem hk, get?_insertAll_of_notMem fun h => hk (hkeys.mem_iff.2 h)]

/-- A row among rows of other keys can as well be inserted last. -/
theorem insertAll_middle {rows more : List (κ × ν)} {k : κ} {v : ν}
    (h : ((rows ++ (k, v) :: more).map Prod.fst).Nodup) (m : OrderedMap κ ν) :
    m.insertAll (rows ++ (k, v) :: more) = (m.insertAll (rows ++ more)).insert k v := by
  have hperm : (rows ++ (k, v) :: more).Perm (rows ++ more ++ [(k, v)]) :=
    List.perm_middle.trans (List.perm_append_singleton _ _).symm
  rw [insertAll_perm hperm h, insertAll_append]
  rfl

omit [DecidableEq κ] in
theorem mem_keys_ofList {rows : List (κ × ν)} {k : κ} :
    k ∈ (ofList rows).keys ↔ k ∈ rows.map Prod.fst := by
  have run : ∀ m : OrderedMap κ ν,
      k ∈ (m.insertAll rows).keys ↔ k ∈ m.keys ∨ k ∈ rows.map Prod.fst := by
    induction rows with
    | nil => simp [insertAll]
    | cons row rows ih =>
      intro m
      rw [insertAll, List.foldl_cons]
      refine (ih (m.insert row.1 row.2)).trans ?_
      rw [mem_keys_iff, contains_insert, mem_keys_iff, List.map_cons, List.mem_cons, or_assoc,
        or_left_comm]
  exact (run ∅).trans (by simp [keys])

/-- The entries of a map, inserted in any order, give the map back. -/
theorem insertAll_empty {m : OrderedMap κ ν} {rows : List (κ × ν)}
    (hrows : (rows.map Prod.fst).Nodup) (hmem : ∀ e, e ∈ rows ↔ e ∈ m.entries) :
    (∅ : OrderedMap κ ν).insertAll rows = m := by
  apply OrderedMap.ext
  intro k
  cases hk : m.get? k with
  | some v =>
    exact get?_insertAll_of_mem hrows ((hmem _).2 (mem_entries_iff.2 hk)) ∅
  | none =>
    refine get?_insertAll_of_notMem (fun h => ?_) _
    obtain ⟨e, he, rfl⟩ := List.mem_map.1 h
    rw [mem_entries_iff.1 ((hmem e).1 he)] at hk
    cases hk

end Rows
end Surface.OrderedMap
