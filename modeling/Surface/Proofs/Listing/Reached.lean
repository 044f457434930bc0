import Surface.Proofs.Listing.Progress
import Surface.Proofs.OrderedMap
import Surface.Proofs.Text.Words

/-! # The tables that reading reaches

Reading a listing changes the table by one definition after another. What a single definition keeps
is therefore kept by whole sequences of listings, whether the reads succeed or stop at a failure.
Two properties are kept by all of them: each class has its own type, and each definition is read off
its full declaration.
-/

namespace Surface

/-- A definition as a line gives it: the full declaration is a trimmed text on one line, and all
else is read off it. -/
structure Declared (display : DisplayPolicy) (id : SymbolId) (d : Definition) : Prop where
  oneLine : '\n' ∉ d.full
  trimmed : Text.trim d.full = d.full
  classified : Declaration.classify? display d.full = some ⟨id.kind, id.signature, d.short, d.label⟩

/-- The symbol is the type of its class, or that type is in the table. -/
def Rooted (table : SymbolTable) (id : SymbolId) : Prop :=
  id = .ofClass id.declaringClass ∨ table.contains (.ofClass id.declaringClass) = true

namespace Listing

theorem classifyLine_eq_ok {display : DisplayPolicy} {source raw full : Text} {n : Nat}
    {c : Classification} (h : classifyLine display source n raw = .ok (full, c)) :
    full = Declaration.textOf raw ∧ Declaration.classify? display full = some c := by
  unfold classifyLine Declaration.classify at h
  cases hc : Declaration.classify? display (Declaration.textOf raw) with
  | none => simp [hc] at h
  | some c' =>
    simp only [hc] at h
    cases h
    exact ⟨rfl, hc⟩

theorem classifyLine_of_ok {display : DisplayPolicy} {raw : Text} {c : Classification}
    (h : Declaration.classify display (Declaration.textOf raw) = .ok c) (source : Text) (n : Nat) :
    classifyLine display source n raw = .ok (Declaration.textOf raw, c) := by
  simp only [classifyLine, h]

theorem classifyLine_of_error {display : DisplayPolicy} {raw : Text} {cause : Cause}
    (h : Declaration.classify display (Declaration.textOf raw) = .error cause) (source : Text)
    (n : Nat) : classifyLine display source n raw =
      .error (failureAt source n { cause.failure with op := some "parse_listing" }) := by
  simp only [classifyLine, h]

theorem textOf_isInfix (raw : Text) : Declaration.textOf raw <:+: raw :=
  (Text.trim_isInfix _).trans ((List.dropLast_prefix _).isInfix.trans (Text.trim_isInfix raw))

theorem declared_of_classifyLine {display : DisplayPolicy} {source raw full : Text} {n : Nat}
    {c : Classification} (hraw : '\n' ∉ raw)
    (h : classifyLine display source n raw = .ok (full, c)) (declaringClass : Text) :
    Declared display ⟨declaringClass, c.kind, c.signature⟩ ⟨full, c.short, c.label⟩ := by
  obtain ⟨rfl, hc⟩ := classifyLine_eq_ok h
  exact ⟨fun hmem => hraw ((textOf_isInfix raw).subset hmem), Text.trim_trim _, hc⟩

/-- A definition fails and leaves the table, or it is set. -/
theorem define_cases (duplicates : DuplicatePolicy) (source : Text) (n : Nat)
    (declaringClass full : Text) (c : Classification) (table : SymbolTable) :
    ((define duplicates source n declaringClass full c table).failure ≠ none ∧
      (define duplicates source n declaringClass full c table).table = table ∧
      table.contains ⟨declaringClass, c.kind, c.signature⟩ = true) ∨
    ((define duplicates source n declaringClass full c table).failure = none ∧
      (define duplicates source n declaringClass full c table).table =
        table.insert ⟨declaringClass, c.kind, c.signature⟩ ⟨full, c.short, c.label⟩) := by
  unfold define SymbolTable.define
  by_cases h : duplicates = .fail ∧ table.contains ⟨declaringClass, c.kind, c.signature⟩ = true
  · left
    rw [if_pos h]
    exact ⟨by simp, rfl, h.2⟩
  · right
    rw [if_neg h]
    cases table.get? ⟨declaringClass, c.kind, c.signature⟩ with
    | none => simp
    | some d => simp

/-- A line of a class that has its type defines what it declares, or leaves the table. -/
theorem readMember_preserves {options : ReadOptions} {declaringClass : Text}
    {I : SymbolTable → Prop}
    (hI : ∀ table id d, I table → id.declaringClass = declaringClass →
      Declared options.display id d → I (table.insert id d))
    (source : Text) {raw : Text × Nat} (hraw : '\n' ∉ raw.1) {table : SymbolTable} (h : I table) :
    I (readMember options source declaringClass raw table).table := by
  unfold readMember
  cases hc : classifyLine options.display source raw.2 raw.1 with
  | error f => exact h
  | ok p =>
    obtain ⟨full, c⟩ := p
    rcases define_cases options.duplicates source raw.2 declaringClass full c table with
      ⟨-, htable, -⟩ | ⟨-, htable⟩ <;> rw [htable]
    · exact h
    · exact hI _ _ _ h rfl (declared_of_classifyLine hraw hc declaringClass)

section Preserves

variable {options : ReadOptions} {I : SymbolTable → Prop}
  (hI : ∀ table id d, I table → Declared options.display id d → Rooted table id →
    I (table.insert id d))

include hI

/-- A class keeps its type while its members are read, so all of them are rooted. -/
theorem readMembers_preserves (source declaringClass : Text) {members : List Text}
    (hmembers : ∀ raw ∈ members, '\n' ∉ raw) {table : SymbolTable} (h : I table)
    (hroot : table.contains (.ofClass declaringClass) = true) :
    I (readMembers options source declaringClass members table).table := by
  have step : ∀ raw ∈ members.zipIdx 2, ∀ t : SymbolTable,
      I t ∧ t.contains (.ofClass declaringClass) = true →
      I (readMember options source declaringClass raw t).table ∧
        (readMember options source declaringClass raw t).table.contains
          (.ofClass declaringClass) = true := by
    intro raw hraw t ht
    have hmem := (List.mem_zipIdx hraw).2.2
    refine readMember_preserves (I := fun t => I t ∧ t.contains (.ofClass declaringClass) = true)
      (fun u id d hu hid hd => ⟨?_, ?_⟩) source ?_ ht
    · exact hI u id d hu.1 hd (.inr (hid ▸ hu.2))
    · exact OrderedMap.contains_insert.2 (.inr hu.2)
    · exact hmembers _ (hmem ▸ List.getElem_mem _)
  exact (Progress.foldl_preserves
    (I := fun t => I t ∧ t.contains (.ofClass declaringClass) = true) ⟨h, hroot⟩ step).1

/-- What each definition of a class with a type keeps is kept by reading a listing. -/
theorem read_preserves (l : Listing) {table : SymbolTable} (h : I table) :
    I (l.read options table).table := by
  have hlines : ∀ raw ∈ l.declarations, '\n' ∉ raw := fun raw hraw =>
    Text.notMem_of_mem_lines (List.dropLast_subset _ hraw)
  unfold read
  cases hl : l.declarations with
  | nil => exact h
  | cons header members =>
    rw [hl] at hlines
    rw [readDeclarations]
    split
    · exact h
    next full c hc =>
      split
      next hkind =>
        have hdeclared := declared_of_classifyLine (hlines header List.mem_cons_self) hc c.signature
        rcases define_cases options.duplicates l.source 1 c.signature full c table with
          ⟨hfail, htable, -⟩ | ⟨hfine, htable⟩
        · obtain ⟨f, hf⟩ := Option.ne_none_iff_exists'.1 hfail
          rw [Progress.andThen_failed hf, htable]
          exact h
        · rw [hkind] at hdeclared htable
          simp only [Progress.andThen, hfine, htable]
          exact readMembers_preserves hI l.source c.signature
            (fun raw hraw => hlines raw (List.mem_cons_of_mem _ hraw))
            (hI _ _ _ h hdeclared (.inl rfl)) (OrderedMap.contains_insert.2 (.inl rfl))
      · exact h

end Preserves
end Listing

/-- The tables reached from the empty one by reading listings one after another, each with options
of its own. A read that fails counts with what it has reached. -/
inductive Reached (allowed : ReadOptions → Prop) : SymbolTable → Prop
  | empty : Reached allowed ∅
  | read {table : SymbolTable} (l : Listing) {options : ReadOptions} :
      allowed options → Reached allowed table → Reached allowed (l.read options table).table

/-- Reached with one display policy throughout. -/
abbrev ReachedUnder (display : DisplayPolicy) : SymbolTable → Prop :=
  Reached fun options => options.display = display

namespace Reached

variable {allowed : ReadOptions → Prop} {table : SymbolTable}

theorem preserves {I : SymbolTable → Prop} (h : Reached allowed table) (hempty : I ∅)
    (hI : ∀ table options id d, allowed options → I table → Declared options.display id d →
      Rooted table id → I (table.insert id d)) : I table := by
  induction h with
  | empty => exact hempty
  | read l hallowed _ ih =>
    exact Listing.read_preserves (fun t id d ht hd hr => hI t _ id d hallowed ht hd hr) l ih

/-- Each class of the table has its own type. -/
theorem contains_ofClass (h : Reached allowed table) {id : SymbolId}
    (hid : table.contains id = true) : table.contains (.ofClass id.declaringClass) = true := by
  revert id
  refine h.preserves (I := fun t => ∀ {id : SymbolId}, t.contains id = true →
    t.contains (.ofClass id.declaringClass) = true) (fun hid => by cases hid) ?_
  intro t options id d _ ht _ hroot id' hid'
  rw [OrderedMap.contains_insert] at hid' ⊢
  rcases hid' with rfl | hid'
  · exact hroot.imp_left Eq.symm
  · exact .inr (ht hid')

/-- Each definition of the table is read off its full declaration. -/
theorem declared (h : Reached allowed table) {id : SymbolId} {d : Definition}
    (hget : table.get? id = some d) : ∃ options, allowed options ∧
      Declared options.display id d := by
  revert id d
  refine h.preserves (I := fun t => ∀ {id : SymbolId} {d : Definition}, t.get? id = some d →
    ∃ options, allowed options ∧ Declared options.display id d) (fun hget => by cases hget) ?_
  intro t options id d hallowed ht hd _ id' d' hget
  rw [OrderedMap.get?_insert] at hget
  split at hget
  next heq =>
    cases hget
    exact heq ▸ ⟨options, hallowed, hd⟩
  next => exact ht hget

/-- The type of a class is read off a declaration like any other symbol. -/
theorem declared_ofClass (h : Reached allowed table) {id : SymbolId}
    (hid : table.contains id = true) :
    ∃ options d, allowed options ∧ Declared options.display (.ofClass id.declaringClass) d := by
  obtain ⟨d, hd⟩ := Option.isSome_iff_exists.1 (h.contains_ofClass hid)
  obtain ⟨options, hallowed, hdeclared⟩ := h.declared hd
  exact ⟨options, d, hallowed, hdeclared⟩

end Reached

theorem ReachedUnder.declared {display : DisplayPolicy} {table : SymbolTable}
    (h : ReachedUnder display table) {id : SymbolId} {d : Definition}
    (hget : table.get? id = some d) : Declared display id d := by
  obtain ⟨options, rfl, hd⟩ := Reached.declared h hget
  exact hd

end Surface
