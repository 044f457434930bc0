import Surface.Proofs.Listing.Outline

/-! # What a listing leaves alone

Reading a listing puts definitions of one class into the table, the class that its header declares,
and takes nothing out of it. This is so for each line, hence for any number of lines, and it does
not matter which line the reading stops at.
-/

namespace Surface

/-- Between the tables nothing is lost and nothing outside of the class is touched. A definition may
be replaced by another one of its identity, unless a second definition fails. -/
structure Frame (declaringClass : Text) (duplicates : DuplicatePolicy)
    (before after : SymbolTable) : Prop where
  contains : ∀ id, before.contains id = true → after.contains id = true
  elsewhere : ∀ id, id.declaringClass ≠ declaringClass → after.get? id = before.get? id
  kept : duplicates = .fail → ∀ id d, before.get? id = some d → after.get? id = some d

namespace Frame

variable {declaringClass : Text} {duplicates : DuplicatePolicy} {first second third : SymbolTable}

theorem refl (declaringClass : Text) (duplicates : DuplicatePolicy) (table : SymbolTable) :
    Frame declaringClass duplicates table table where
  contains _ h := h
  elsewhere _ _ := rfl
  kept _ _ _ h := h

theorem trans (h : Frame declaringClass duplicates first second)
    (h' : Frame declaringClass duplicates second third) :
    Frame declaringClass duplicates first third where
  contains id hid := h'.contains id (h.contains id hid)
  elsewhere id hid := (h'.elsewhere id hid).trans (h.elsewhere id hid)
  kept hfail id d hd := h'.kept hfail id d (h.kept hfail id d hd)

theorem insert {table : SymbolTable} (id : SymbolId) (d : Definition)
    (h : duplicates = .fail → table.contains id = false) :
    Frame id.declaringClass duplicates table (table.insert id d) where
  contains other hother := OrderedMap.contains_insert.2 (.inr hother)
  elsewhere other hother := by
    rw [OrderedMap.get?_insert, if_neg]
    rintro rfl
    exact hother rfl
  kept hfail other d' hd := by
    rw [OrderedMap.get?_insert, if_neg]
    · exact hd
    · rintro rfl
      have hnew := h hfail
      simp [OrderedMap.contains, hd] at hnew

end Frame

namespace Listing

variable {options : ReadOptions}

theorem frame_define (duplicates : DuplicatePolicy) (source : Text) (n : Nat)
    (declaringClass full : Text) (c : Classification) (table : SymbolTable) :
    Frame declaringClass duplicates table
      (define duplicates source n declaringClass full c table).table := by
  by_cases hdup : duplicates = .fail ∧
      table.contains ⟨declaringClass, c.kind, c.signature⟩ = true
  · rw [define_of_duplicate hdup.1 hdup.2]
    exact .refl _ _ _
  · rcases define_cases duplicates source n declaringClass full c table with
      ⟨hfailed, -⟩ | ⟨-, htable⟩
    · exact absurd (failure_define hdup source n full) hfailed
    · rw [htable]
      apply Frame.insert ⟨declaringClass, c.kind, c.signature⟩
      intro hfail
      simpa [hfail] using hdup

/-- Each line keeps to the class. -/
theorem frame_readMember (source declaringClass : Text) (raw : Text × Nat) (table : SymbolTable) :
    Frame declaringClass options.duplicates table
      (readMember options source declaringClass raw table).table := by
  unfold readMember
  cases classifyLine options.display source raw.2 raw.1 with
  | error f => exact .refl _ _ _
  | ok line => exact frame_define _ _ _ _ _ _ _

theorem frame_readMembers (source declaringClass : Text) (members : List Text)
    (table : SymbolTable) : Frame declaringClass options.duplicates table
      (readMembers options source declaringClass members table).table := by
  unfold readMembers
  apply Progress.foldl_preserves (I := Frame declaringClass options.duplicates table)
  · exact .refl _ _ _
  · intro raw _ reached hreached
    exact hreached.trans (frame_readMember source declaringClass raw reached)

/-- What the first line of the listing declares. -/
def header? (display : DisplayPolicy) (l : Listing) : Option Classification :=
  l.declarations.head?.bind fun raw => Declaration.classify? display (Declaration.textOf raw)

/-- A header that declares a type opens its class, and without one nothing is read. -/
theorem frame_read_or_eq (l : Listing) (options : ReadOptions) (table : SymbolTable) :
    (∃ c, l.header? options.display = some c ∧ c.kind = .type ∧
      Frame c.signature options.duplicates table (l.read options table).table) ∨
    ((∀ c, l.header? options.display = some c → c.kind ≠ .type) ∧
      (l.read options table).table = table) := by
  unfold read header?
  cases l.declarations with
  | nil => exact .inr ⟨by simp, rfl⟩
  | cons header members =>
    rw [List.head?_cons, Option.bind_some]
    cases hline : classifyLine options.display l.source 1 header with
    | error f =>
      simp only [readDeclarations, hline, classify?_of_error hline]
      exact .inr (by simp)
    | ok line =>
      obtain ⟨full, c⟩ := line
      obtain ⟨rfl, hc⟩ := classifyLine_eq_ok hline
      simp only [readDeclarations, hline]
      by_cases hkind : c.kind = .type
      · refine .inl ⟨c, hc, hkind, ?_⟩
        simp only [hkind, if_true]
        apply Progress.andThen_preserves (I := Frame c.signature options.duplicates table)
        · exact frame_define _ _ _ _ _ _ _
        · intro reached hreached
          exact hreached.trans (frame_readMembers l.source c.signature members reached)
      · refine .inr ⟨?_, by simp only [hkind, if_false]⟩
        simpa [hc] using hkind

/-- Wherever the reading of a listing ends, no identity is gone, only identities of the class that
the header declares may have come or changed, and where a second definition fails none has changed.
If the header declares no type, the table is as before. -/
theorem read_frame (l : Listing) (options : ReadOptions) (table : SymbolTable) :
    (∀ id, table.contains id = true → (l.read options table).table.contains id = true) ∧
    (∀ c, l.header? options.display = some c → ∀ id, id.declaringClass ≠ c.signature →
      (l.read options table).table.get? id = table.get? id) ∧
    ((∀ c, l.header? options.display = some c → c.kind ≠ .type) →
      (l.read options table).table = table) ∧
    (options.duplicates = .fail → ∀ id d, table.get? id = some d →
      (l.read options table).table.get? id = some d) := by
  rcases l.frame_read_or_eq options table with ⟨c, hc, hkind, hframe⟩ | ⟨hnone, htable⟩
  · refine ⟨hframe.contains, ?_, fun hno => absurd hkind (hno c hc), hframe.kept⟩
    intro c' hc' id hid
    rw [hc] at hc'
    cases hc'
    exact hframe.elsewhere id hid
  · rw [htable]
    exact ⟨fun _ h => h, fun _ _ _ _ => rfl, fun _ => rfl, fun _ _ _ h => h⟩

def valveListing : Listing where
  source := "b/Valve".toList
  text := "class b.Valve \x7b\n  enum a.Pipe \x7b\n  static int width = 2;\n  width;\n\x7d\n".toList

def pipeTable : SymbolTable :=
  .ofList [
    (.ofClass "a.Pipe".toList, ⟨"class a.Pipe".toList, "a.Pipe".toList, "class".toList⟩),
    (⟨"b.Valve".toList, .field, "width".toList⟩,
      ⟨"int width".toList, "int width".toList, "field".toList⟩)]

theorem read_frame_valve :
    let after := (valveListing.read default pipeTable).table
    let width : SymbolId := ⟨"b.Valve".toList, .field, "width".toList⟩
    (valveListing.read default pipeTable).failure ≠ none ∧
    after.get? width ≠ pipeTable.get? width ∧
    pipeTable.contains width = true ∧ after.contains width = true ∧
    valveListing.header? (default : ReadOptions).display =
      some ⟨.type, "b.Valve".toList, "b.Valve".toList, "class".toList⟩ ∧
    after.get? (.ofClass "a.Pipe".toList) = pipeTable.get? (.ofClass "a.Pipe".toList) ∧
    (valveListing.read ⟨default, .fail⟩ pipeTable).table.get? width = pipeTable.get? width := by
  intro after width
  obtain ⟨hfailure, hchanged, hwidth, hheader⟩ :
      (valveListing.read default pipeTable).failure ≠ none ∧
      after.get? width ≠ pipeTable.get? width ∧ pipeTable.contains width = true ∧
      valveListing.header? (default : ReadOptions).display =
        some ⟨.type, "b.Valve".toList, "b.Valve".toList, "class".toList⟩ := by decide +kernel
  obtain ⟨hcontains, helsewhere, -⟩ := valveListing.read_frame default pipeTable
  obtain ⟨-, -, -, hkept⟩ := valveListing.read_frame ⟨default, .fail⟩ pipeTable
  have hget : pipeTable.get? width =
      some ⟨"int width".toList, "int width".toList, "field".toList⟩ := by decide +kernel
  refine ⟨hfailure, hchanged, hwidth, hcontains width hwidth, hheader,
    helsewhere _ hheader _ (by decide), ?_⟩
  rw [hkept rfl _ _ hget, hget]

end Listing
end Surface
