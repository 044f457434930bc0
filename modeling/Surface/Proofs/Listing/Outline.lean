import Surface.Proofs.Listing.Refusal

/-! # What listings say

Which declarations a listing makes, and at which line it stops because that line declares nothing,
is decided by its text and by the display policy. The table comes in afterwards: reading a listing
is defining what it says, one declaration after another, and reading several listings is defining
what they say together.
-/

namespace Surface

/-- A declaration and the line on which it stands. -/
structure Entry where
  source : Text
  line : Nat
  id : SymbolId
  definition : Definition
  deriving DecidableEq

namespace Entry

def row (e : Entry) : SymbolId × Definition := (e.id, e.definition)

def ofLine (source : Text) (line : Nat) (declaringClass full : Text) (c : Classification) :
    Entry where
  source := source
  line := line
  id := ⟨declaringClass, c.kind, c.signature⟩
  definition := ⟨full, c.short, c.label⟩

def define (duplicates : DuplicatePolicy) (e : Entry) : SymbolTable → Progress :=
  Listing.define duplicates e.source e.line e.id.declaringClass e.definition.full
    ⟨e.id.kind, e.id.signature, e.definition.short, e.definition.label⟩

def classified (e : Entry) : Event := .classified e.id.kind e.id.signature

theorem define_ofLine (duplicates : DuplicatePolicy) (source : Text) (line : Nat)
    (declaringClass full : Text) (c : Classification) :
    (ofLine source line declaringClass full c).define duplicates =
      Listing.define duplicates source line declaringClass full c := rfl

variable {e : Entry} {table : SymbolTable}

/-- A new identity is defined under either duplicate policy. -/
theorem define_of_new (h : table.get? e.id = none) (duplicates : DuplicatePolicy) :
    e.define duplicates table =
      ⟨table.insert e.id e.definition, [e.classified], none⟩ := by
  have hcontains : table.contains e.id = false := by
    rw [OrderedMap.contains, h]
    rfl
  have hid : (⟨e.id.declaringClass, e.id.kind, e.id.signature⟩ : SymbolId) = e.id := rfl
  simp only [define, Listing.define, SymbolTable.define, hid, hcontains, h, Bool.false_eq_true,
    and_false, if_false]
  rfl

theorem define_of_repeated (h : table.contains e.id = true) :
    e.define .fail table = ⟨table, [e.classified], some (Listing.failureAt e.source e.line
      (Cause.duplicate e.id.declaringClass e.id.signature).failure)⟩ :=
  Listing.define_of_duplicate rfl h e.source e.line e.definition.full

theorem define_overwrite (e : Entry) (table : SymbolTable) :
    (e.define .overwrite table).failure = none ∧
      (e.define .overwrite table).table = table.insert e.id e.definition := by
  have hfine : (e.define .overwrite table).failure = none :=
    Listing.failure_define (fun h => by cases h.1) _ _ _
  refine ⟨hfine, ?_⟩
  rcases Listing.define_cases .overwrite e.source e.line e.id.declaringClass e.definition.full
    ⟨e.id.kind, e.id.signature, e.definition.short, e.definition.label⟩ table with h | h
  · exact absurd hfine h.1
  · exact h.2

end Entry

/-- A line at which reading ends: what is told about the line, and the failure. -/
structure Stop where
  events : List Event
  failure : Failure
  deriving DecidableEq

/-- Declarations one after another, and the line that ends them, if there is one. -/
structure Outline where
  entries : List Entry
  stop : Option Stop
  deriving DecidableEq

namespace Outline

def cons (e : Entry) (o : Outline) : Outline := ⟨e :: o.entries, o.stop⟩

/-- One outline behind another, which it continues unless that one stops. -/
def append (o p : Outline) : Outline :=
  match o.stop with
  | some _ => o
  | none => ⟨o.entries ++ p.entries, p.stop⟩

def close (o : Outline) (table : SymbolTable) : Progress :=
  match o.stop with
  | some s => ⟨table, s.events, some s.failure⟩
  | none => ⟨table, [], none⟩

/-- Defines the declarations in order and ends where the outline stops. -/
def define (duplicates : DuplicatePolicy) (o : Outline) (table : SymbolTable) : Progress :=
  (o.entries.foldl (fun p e => p.andThen (e.define duplicates))
    (⟨table, [], none⟩ : Progress)).andThen o.close

def ids (o : Outline) : List SymbolId := o.entries.map Entry.id

def rows (o : Outline) : List (SymbolId × Definition) := o.entries.map Entry.row

theorem map_fst_rows (o : Outline) : o.rows.map Prod.fst = o.ids := List.map_map

theorem rows_cons (e : Entry) (o : Outline) : (o.cons e).rows = e.row :: o.rows := rfl

theorem define_cons (duplicates : DuplicatePolicy) (e : Entry) (o : Outline)
    (table : SymbolTable) : (o.cons e).define duplicates table =
      (e.define duplicates table).andThen (o.define duplicates) := by
  unfold define cons
  rw [List.foldl_cons, Progress.nil_andThen, Progress.foldl_andThen, Progress.andThen_assoc]
  rfl

/-- Of two outlines one behind the other, the second one is defined unless the first one stops. -/
theorem define_append (duplicates : DuplicatePolicy) (o p : Outline) (table : SymbolTable) :
    (o.append p).define duplicates table =
      (o.define duplicates table).andThen (p.define duplicates) := by
  obtain ⟨entries, stop⟩ := o
  cases stop with
  | some s =>
    have hclose : ∀ t : SymbolTable,
        (close ⟨entries, some s⟩ t).andThen (p.define duplicates) = close ⟨entries, some s⟩ t :=
      fun t => Progress.andThen_failed rfl _
    simp only [append, define, Progress.andThen_assoc, hclose]
  | none =>
    have hclose : close ⟨entries, none⟩ = fun t => ⟨t, [], none⟩ := rfl
    simp only [append, define, hclose, Progress.andThen_nil]
    rw [List.foldl_append, Progress.foldl_andThen, Progress.andThen_assoc]
    rfl

theorem entries_append {o : Outline} (h : o.stop = none) (p : Outline) :
    (o.append p).entries = o.entries ++ p.entries := by
  rw [append, h]

theorem stop_append_eq_none_iff {o p : Outline} :
    (o.append p).stop = none ↔ o.stop = none ∧ p.stop = none := by
  unfold append
  cases h : o.stop with
  | some s => simp [h]
  | none => simp

end Outline

namespace Listing

def outlineMembers (display : DisplayPolicy) (source declaringClass : Text) :
    List (Text × Nat) → Outline
  | [] => ⟨[], none⟩
  | raw :: rest =>
    match classifyLine display source raw.2 raw.1 with
    | .error f => ⟨[], some ⟨[], f⟩⟩
    | .ok (full, c) =>
      (outlineMembers display source declaringClass rest).cons
        (.ofLine source raw.2 declaringClass full c)

/-- The declarations of a listing, up to the first line that declares nothing. -/
def outline (display : DisplayPolicy) (l : Listing) : Outline :=
  match l.declarations with
  | [] => ⟨[], none⟩
  | header :: members =>
    match classifyLine display l.source 1 header with
    | .error f => ⟨[], some ⟨[], f⟩⟩
    | .ok (full, c) =>
      if c.kind = .type then
        (outlineMembers display l.source c.signature (members.zipIdx 2)).cons
          (.ofLine l.source 1 c.signature full c)
      else
        ⟨[], some ⟨[.classified c.kind c.signature],
          failureAt l.source 1 (Cause.missingType c.label full).failure⟩⟩

/-- What listings say one behind the other. -/
def outlineAll (display : DisplayPolicy) (listings : List Listing) : Outline :=
  listings.foldr (fun l o => (l.outline display).append o) ⟨[], none⟩

theorem lines_outlineMembers (display : DisplayPolicy) (source declaringClass : Text)
    (members : List (Text × Nat)) :
    (outlineMembers display source declaringClass members).entries.map Entry.line <+:
      members.map Prod.snd := by
  induction members with
  | nil => exact List.prefix_refl []
  | cons raw rest ih =>
    rw [outlineMembers]
    cases classifyLine display source raw.2 raw.1 with
    | error f => exact List.nil_prefix
    | ok line => exact (List.prefix_cons_inj _).2 ih

/-- The entries stand on the lines of the listing from the first one on. -/
theorem lines_outline (display : DisplayPolicy) (l : Listing) :
    (l.outline display).entries.map Entry.line <+: List.range' 1 l.declarations.length := by
  unfold outline
  cases l.declarations with
  | nil => exact List.prefix_refl []
  | cons header members =>
    dsimp only
    cases classifyLine display l.source 1 header with
    | error f => exact List.nil_prefix
    | ok line =>
      dsimp only
      split
      · have hmembers := lines_outlineMembers display l.source line.2.signature
          (members.zipIdx 2)
        rw [List.zipIdx_map_snd] at hmembers
        exact (List.prefix_cons_inj _).2 hmembers
      · exact List.nil_prefix

variable {options : ReadOptions}

theorem readMembers_eq_define (source declaringClass : Text) (members : List (Text × Nat))
    (table : SymbolTable) :
    members.foldl (fun p raw => p.andThen (readMember options source declaringClass raw))
        ⟨table, [], none⟩ =
      (outlineMembers options.display source declaringClass members).define options.duplicates
        table := by
  induction members generalizing table with
  | nil => rfl
  | cons raw rest ih =>
    rw [List.foldl_cons, Progress.nil_andThen, Progress.foldl_andThen]
    cases hc : classifyLine options.display source raw.2 raw.1 with
    | error f =>
      simp only [outlineMembers, readMember, hc]
      exact Progress.andThen_failed rfl _
    | ok line =>
      obtain ⟨full, c⟩ := line
      simp only [outlineMembers, readMember, hc, Outline.define_cons, Entry.define_ofLine]
      exact congrArg _ (funext ih)

/-- Reading a listing is defining what it says. -/
theorem read_eq_define (l : Listing) : l.read options =
    (l.outline options.display).define options.duplicates := by
  funext table
  unfold read outline
  cases l.declarations with
  | nil => rfl
  | cons header members =>
    cases hc : classifyLine options.display l.source 1 header with
    | error f =>
      simp only [readDeclarations, hc]
      rfl
    | ok line =>
      obtain ⟨full, c⟩ := line
      simp only [readDeclarations, hc]
      by_cases hkind : c.kind = .type
      · simp only [hkind, if_true, Outline.define_cons, Entry.define_ofLine]
        exact congrArg _ (funext (readMembers_eq_define l.source c.signature (members.zipIdx 2)))
      · simp only [hkind, if_false]
        rfl

theorem readAll_eq_define (listings : List Listing) : readAll options listings =
    (outlineAll options.display listings).define options.duplicates := by
  induction listings with
  | nil => rfl
  | cons l listings ih =>
    have hcons : outlineAll options.display (l :: listings) =
        (l.outline options.display).append (outlineAll options.display listings) := rfl
    funext table
    rw [hcons, Outline.define_append, ← ih, ← read_eq_define, readAll, List.foldl_cons,
      Progress.nil_andThen, Progress.foldl_andThen]
    rfl

end Listing

namespace Listing

variable {display : DisplayPolicy} {source declaringClass raw full : Text} {n : Nat}
  {c : Classification} {rows : List (SymbolId × Definition)}

/-- What a line adds to the table as a line of the class. -/
def rowOf? (display : DisplayPolicy) (declaringClass raw : Text) :
    Option (SymbolId × Definition) :=
  (Declaration.classify? display (Declaration.textOf raw)).map fun c =>
    (⟨declaringClass, c.kind, c.signature⟩, ⟨Declaration.textOf raw, c.short, c.label⟩)

theorem classifyLine_of_some (h : Declaration.classify? display (Declaration.textOf raw) = some c)
    (source : Text) (n : Nat) :
    classifyLine display source n raw = .ok (Declaration.textOf raw, c) := by
  apply classifyLine_of_ok
  rw [Declaration.classify, h]

theorem classify?_of_error {f : Failure} (h : classifyLine display source n raw = .error f) :
    Declaration.classify? display (Declaration.textOf raw) = none := by
  rw [Option.eq_none_iff_forall_ne_some]
  intro c hc
  rw [classifyLine_of_some hc] at h
  cases h

/-- Each of the lines is a declaration, and the first one is that of their class. -/
inductive Says (display : DisplayPolicy) : List Text → List (SymbolId × Definition) → Prop
  | nil : Says display [] []
  | cons {header : Text} {members : List Text} {c : Classification}
      {rows : List (SymbolId × Definition)} :
      Declaration.classify? display (Declaration.textOf header) = some c → c.kind = .type →
      (header :: members).map (rowOf? display c.signature) = rows.map some →
      Says display (header :: members) rows

theorem map_eq_map_some_iff {α β : Type} {f : α → Option β} {xs : List α} {ys : List β} :
    xs.map f = ys.map some ↔ xs.filterMap f = ys ∧ ∀ x ∈ xs, f x ≠ none := by
  induction xs generalizing ys with
  | nil => cases ys <;> simp
  | cons x xs ih =>
    cases hx : f x with
    | none => cases ys <;> simp [hx]
    | some y =>
      cases ys with
      | nil => simp [hx]
      | cons z ys => simp [hx, ih, and_assoc]

theorem outlineMembers_says_iff {members : List (Text × Nat)} :
    (members.map Prod.fst).map (rowOf? display declaringClass) = rows.map some ↔
      (outlineMembers display source declaringClass members).stop = none ∧
        (outlineMembers display source declaringClass members).rows = rows := by
  induction members generalizing rows with
  | nil => cases rows <;> simp [outlineMembers, Outline.rows]
  | cons raw members ih =>
    cases hc : classifyLine display source raw.2 raw.1 with
    | error f =>
      have hnone : rowOf? display declaringClass raw.1 = none := by
        rw [rowOf?, classify?_of_error hc]
        rfl
      simp only [outlineMembers, hc, List.map_cons, hnone]
      cases rows <;> simp
    | ok line =>
      obtain ⟨full, c⟩ := line
      have hrow : rowOf? display declaringClass raw.1 =
          some (Entry.ofLine source raw.2 declaringClass full c).row := by
        obtain ⟨rfl, hclassify⟩ := classifyLine_eq_ok hc
        rw [rowOf?, hclassify]
        rfl
      simp only [outlineMembers, hc, List.map_cons, hrow, Outline.rows_cons]
      cases rows with
      | nil => simp
      | cons row rows =>
        rw [List.map_cons, List.cons.injEq, List.cons.injEq, Option.some.injEq, ih, and_left_comm]
        rfl

/-- A header that declares a type is read like the members behind it. -/
theorem outline_of_type {l : Listing} {header : Text} {members : List Text}
    (h : l.declarations = header :: members)
    (hc : Declaration.classify? display (Declaration.textOf header) = some c)
    (hkind : c.kind = .type) : l.outline display =
      outlineMembers display l.source c.signature ((header :: members).zipIdx 1) := by
  simp only [outline, h, classifyLine_of_some hc, hkind, if_true, List.zipIdx_cons,
    outlineMembers]

theorem exists_type_of_stop_none {l : Listing} {header : Text} {members : List Text}
    (h : l.declarations = header :: members) (hstop : (l.outline display).stop = none) :
    ∃ c, Declaration.classify? display (Declaration.textOf header) = some c ∧ c.kind = .type := by
  cases hc : classifyLine display l.source 1 header with
  | error f =>
    simp only [outline, h, hc] at hstop
    cases hstop
  | ok line =>
    obtain ⟨full, c⟩ := line
    obtain ⟨rfl, hclassify⟩ := classifyLine_eq_ok hc
    refine ⟨c, hclassify, Decidable.byContradiction fun hkind => ?_⟩
    simp only [outline, h, hc, hkind, if_false] at hstop
    cases hstop

theorem says_iff {l : Listing} : Says display l.declarations rows ↔
    (l.outline display).stop = none ∧ (l.outline display).rows = rows := by
  cases h : l.declarations with
  | nil =>
    have houtline : l.outline display = ⟨[], none⟩ := by
      rw [outline, h]
    rw [houtline]
    constructor
    · rintro ⟨⟩
      exact ⟨rfl, rfl⟩
    · rintro ⟨-, rfl⟩
      exact .nil
  | cons header members =>
    have hfst := List.zipIdx_map_fst 1 (header :: members)
    constructor
    · intro hsays
      cases hsays with
      | @cons _ _ c _ hc hkind hrows =>
        rw [outline_of_type h hc hkind]
        apply outlineMembers_says_iff.1
        rw [hfst]
        exact hrows
    · intro hsays
      obtain ⟨c, hc, hkind⟩ := exists_type_of_stop_none h hsays.1
      rw [outline_of_type h hc hkind, ← outlineMembers_says_iff, hfst] at hsays
      exact .cons hc hkind hsays

/-- Together listings have no stop if none of them has, and then they say one behind the other what
each of them says. -/
theorem stop_outlineAll_eq_none_iff {listings : List Listing} :
    (outlineAll display listings).stop = none ↔
      ∀ l ∈ listings, (l.outline display).stop = none := by
  induction listings with
  | nil => simp [outlineAll]
  | cons l listings ih =>
    rw [List.forall_mem_cons, ← ih]
    exact Outline.stop_append_eq_none_iff

theorem rows_outlineAll {listings : List Listing}
    (h : ∀ l ∈ listings, (l.outline display).stop = none) :
    (outlineAll display listings).rows = listings.flatMap fun l => (l.outline display).rows := by
  induction listings with
  | nil => rfl
  | cons l listings ih =>
    obtain ⟨hl, hrest⟩ := List.forall_mem_cons.1 h
    rw [List.flatMap_cons, ← ih hrest]
    exact (congrArg (List.map Entry.row) (Outline.entries_append hl _)).trans List.map_append

end Listing

namespace Outline

variable {o : Outline} {table : SymbolTable}

/-- Distinct identities, none of which the table has, are all defined, whatever a second definition
would do. -/
theorem define_of_nodup (hnodup : o.ids.Nodup) (hnew : ∀ id ∈ o.ids, table.get? id = none)
    (duplicates : DuplicatePolicy) : o.define duplicates table =
      (⟨table.insertAll o.rows, o.entries.map Entry.classified, none⟩ : Progress).andThen
        o.close := by
  obtain ⟨entries, stop⟩ := o
  induction entries generalizing table with
  | nil => rfl
  | cons e es ih =>
    rw [ids, List.map_cons] at hnodup hnew
    obtain ⟨hfirst, hrest⟩ := List.nodup_cons.1 hnodup
    have hnew' : ∀ id ∈ es.map Entry.id, (table.insert e.id e.definition).get? id = none := by
      intro id hid
      have hne : id ≠ e.id := by
        rintro rfl
        exact hfirst hid
      rw [OrderedMap.get?_insert, if_neg hne]
      exact hnew id (List.mem_cons_of_mem _ hid)
    have hcons : (⟨e :: es, stop⟩ : Outline) = cons e ⟨es, stop⟩ := rfl
    rw [hcons, define_cons, Entry.define_of_new (hnew e.id List.mem_cons_self), Progress.andThen,
      ih hrest hnew']
    cases stop <;> rfl

theorem close_of_stop_none (h : o.stop = none) : o.close = fun table => ⟨table, [], none⟩ := by
  funext table
  rw [close, h]

/-- Distinct identities without a stop behind them fill an empty table. -/
theorem define_of_distinct (h : o.ids.Nodup) (hstop : o.stop = none)
    (duplicates : DuplicatePolicy) : o.define duplicates ∅ =
      ⟨OrderedMap.insertAll ∅ o.rows, o.entries.map Entry.classified, none⟩ := by
  rw [define_of_nodup h (fun _ _ => rfl), close_of_stop_none hstop, Progress.andThen_nil]

/-- When later definitions replace earlier ones, only a stop ends the reading. -/
theorem define_overwrite (o : Outline) (table : SymbolTable) :
    (o.define .overwrite table).failure = o.stop.map Stop.failure ∧
      (o.define .overwrite table).table = table.insertAll o.rows := by
  obtain ⟨entries, stop⟩ := o
  induction entries generalizing table with
  | nil => cases stop <;> exact ⟨rfl, rfl⟩
  | cons e es ih =>
    obtain ⟨hfine, htable⟩ := e.define_overwrite table
    obtain ⟨hfailure, hrest⟩ := ih (table.insert e.id e.definition)
    have hcons : (⟨e :: es, stop⟩ : Outline) = cons e ⟨es, stop⟩ := rfl
    rw [hcons, define_cons]
    refine ⟨?_, ?_⟩
    · rw [Progress.failure_andThen hfine, htable]
      exact hfailure
    · rw [Progress.table_andThen hfine, htable]
      exact hrest

end Outline
end Surface
