import Surface.Proofs.Declaration.Variants
import Surface.Proofs.Listing.Repeats
import Surface.Proofs.Report.Exactness

/-! # One edited declaration

A listing in which one line is written anew, so that it still declares the same, changes the full
text of that symbol and nothing else. The report shows it as one modification, and as nothing if
the text has stayed the same.
-/

namespace Surface

namespace Report

variable {table : SymbolTable} {id : SymbolId} {d d' : Definition}

theorem additions_insert (h : table.get? id = some d) (d' : Definition) :
    additions table (table.insert id d') = [] := by
  have hid : table.contains id = true := by
    rw [OrderedMap.contains, h]
    rfl
  rw [additions, List.map_eq_nil_iff, List.filter_eq_nil_iff]
  intro e he
  rcases OrderedMap.contains_insert.1 (OrderedMap.contains_of_mem_entries he) with heq | hold
  · simp [heq, hid]
  · simp [hold]

theorem deletions_insert (table : SymbolTable) (id : SymbolId) (d' : Definition) :
    deletions table (table.insert id d') = [] := by
  rw [deletions, List.map_eq_nil_iff, List.filter_eq_nil_iff]
  intro e he
  have hstays : (table.insert id d').contains e.1 = true :=
    OrderedMap.contains_insert.2 (.inr (OrderedMap.contains_of_mem_entries he))
  simp [hstays]

theorem modifications_insert (h : table.get? id = some d) :
    modifications table (table.insert id d') =
      if d.full = d'.full then [] else [.modification id d d'] := by
  have hother : ∀ e ∈ table.entries, modification? (table.insert id d') e.1 e.2 =
      if e.1 = id then modification? (table.insert id d') e.1 e.2 else none := by
    rintro ⟨other, old⟩ hmem
    by_cases hid : other = id
    · rw [if_pos hid]
    · rw [if_neg hid, modification?, OrderedMap.get?_insert, if_neg hid,
        OrderedMap.mem_entries_iff.1 hmem]
      exact if_pos rfl
  have hown : modification? (table.insert id d') id d =
      if d.full = d'.full then none else some (.modification id d d') := by
    rw [modification?, OrderedMap.get?_insert, if_pos rfl]
  have hentry : (table.entries.filter fun e => e.1 = id) = [(id, d)] := by
    rw [OrderedMap.filter_key_entries, h]
    rfl
  calc modifications table (table.insert id d')
      = table.entries.filterMap fun e =>
          if e.1 = id then modification? (table.insert id d') e.1 e.2 else none :=
        List.filterMap_congr hother
    _ = (table.entries.filter fun e => e.1 = id).filterMap fun e =>
          modification? (table.insert id d') e.1 e.2 := by
        rw [List.filterMap_filter]
        simp
    _ = if d.full = d'.full then [] else [.modification id d d'] := by
        rw [hentry, List.filterMap_cons, hown]
        by_cases hfull : d.full = d'.full <;> simp [hfull]

/-- A symbol that is defined anew is the only one in the report. -/
theorem entries_between_insert (h : table.get? id = some d) :
    (between table (table.insert id d')).entries =
      if d.full = d'.full then [] else [(id.declaringClass, [.modification id d d'])] := by
  rw [between, additions_insert h, deletions_insert, modifications_insert h]
  by_cases hfull : d.full = d'.full <;> simp only [hfull, if_true, if_false] <;> rfl

end Report

namespace Listing

variable {display : DisplayPolicy} {front behind : List Text} {raw raw' b : Text}
  {c : Classification} {rows : List (SymbolId × Definition)} {l l' : Listing}

theorem rowOf?_of_some (h : Declaration.classify? display (Declaration.textOf raw) = some c)
    (declaringClass : Text) : rowOf? display declaringClass raw =
      some (⟨declaringClass, c.kind, c.signature⟩, ⟨Declaration.textOf raw, c.short, c.label⟩) := by
  rw [rowOf?, h]
  rfl

/-- A line that declares the same as the line in its place adds the same row, up to the full
text. -/
theorem Says.edit (h : Says display (front ++ raw :: behind) rows)
    (hraw : Declaration.classify? display (Declaration.textOf raw) = some c)
    (hraw' : Declaration.classify? display (Declaration.textOf raw') = some c) :
    ∃ declaringClass before after,
      declaringClass? display (front ++ raw :: behind) = some declaringClass ∧
      rows = before ++ (⟨declaringClass, c.kind, c.signature⟩,
        ⟨Declaration.textOf raw, c.short, c.label⟩) :: after ∧
      Says display (front ++ raw' :: behind) (before ++
        (⟨declaringClass, c.kind, c.signature⟩,
          ⟨Declaration.textOf raw', c.short, c.label⟩) :: after) := by
  generalize hlines : front ++ raw :: behind = lines at h
  cases h with
  | nil => exact absurd hlines (by simp)
  | @cons header members c₀ _ hc hkind hrows =>
    have hclass : declaringClass? display (header :: members) = some c₀.signature := by
      rw [declaringClass?, hc]
      rfl
    rw [← hlines, List.map_append, List.map_cons, rowOf?_of_some hraw] at hrows
    obtain ⟨before, own, rfl, hbefore, hown⟩ := List.append_eq_map_iff.1 hrows
    obtain ⟨row, after, rfl, hrow, hafter⟩ := List.map_eq_cons_iff.1 hown
    cases hrow
    refine ⟨c₀.signature, before, after, hclass, rfl, ?_⟩
    have hrows' : (front ++ raw' :: behind).map (rowOf? display c₀.signature) =
        (before ++ (⟨c₀.signature, c.kind, c.signature⟩,
          ⟨Declaration.textOf raw', c.short, c.label⟩) :: after).map some := by
      rw [List.map_append, List.map_cons, rowOf?_of_some hraw', List.map_append, List.map_cons,
        hbefore, hafter]
    cases front with
    | nil =>
      cases hlines
      cases hraw.symm.trans hc
      exact .cons hraw' hkind hrows'
    | cons header' front =>
      cases hlines
      exact .cons hc hkind hrows'

/-- One of the declarations is replaced. -/
def Edits (raw raw' : Text) (l l' : Listing) : Prop :=
  ∃ front behind, l.declarations = front ++ raw :: behind ∧
    l'.declarations = front ++ raw' :: behind

/-- The table of a listing that can be read where repeats are refused. -/
theorem read_fail_of_says (h : Says display l.declarations rows)
    (hnodup : (rows.map Prod.fst).Nodup) :
    (l.read ⟨display, .fail⟩ ∅).failure = none ∧
      (l.read ⟨display, .fail⟩ ∅).table = OrderedMap.insertAll ∅ rows := by
  obtain ⟨hstop, rfl⟩ := says_iff.1 h
  rw [Outline.map_fst_rows] at hnodup
  rw [read_eq_define, Outline.define_of_distinct hnodup hstop]
  exact ⟨rfl, rfl⟩

theorem exists_says_of_read_fail (h : (l.read ⟨display, .fail⟩ ∅).failure = none) :
    ∃ rows, Says display l.declarations rows ∧ (rows.map Prod.fst).Nodup := by
  rw [read_eq_define] at h
  obtain ⟨hnodup, hstop⟩ := Outline.failure_define_fail_eq_none_iff.1 h
  refine ⟨(l.outline display).rows, says_iff.2 ⟨hstop, rfl⟩, ?_⟩
  rwa [Outline.map_fst_rows]

open Declaration in
/-- Modifiers and initializers of a declaration can be edited without a trace in its identity: the
report shows one modification of it, or nothing where the full text stays. -/
theorem between_edited (hfine : (l.read ⟨display, .fail⟩ ∅).failure = none)
    (hedit : Edits raw raw' l l') (hb : classify display b = .ok c)
    (hraw : IsVariant b (textOf raw)) (hraw' : IsVariant b (textOf raw')) :
    (l'.read ⟨display, .fail⟩ ∅).failure = none ∧
    ∃ declaringClass, declaringClass? display l.declarations = some declaringClass ∧
      (Report.between (l.read ⟨display, .fail⟩ ∅).table
        (l'.read ⟨display, .fail⟩ ∅).table).entries =
        if textOf raw = textOf raw' then []
        else [(declaringClass, [.modification ⟨declaringClass, c.kind, c.signature⟩
          ⟨textOf raw, c.short, c.label⟩ ⟨textOf raw', c.short, c.label⟩])] := by
  obtain ⟨front, behind, hl, hl'⟩ := hedit
  obtain ⟨rows, hsays, hnodup⟩ := exists_says_of_read_fail hfine
  obtain ⟨-, htable⟩ := read_fail_of_says hsays hnodup
  rw [hl] at hsays
  obtain ⟨declaringClass, before, after, hclass, rfl, hsays'⟩ :=
    hsays.edit (classify_eq_ok_iff.1 (hraw.classify_eq hb))
      (classify_eq_ok_iff.1 (hraw'.classify_eq hb))
  have hnodup' : ((before ++ ((⟨declaringClass, c.kind, c.signature⟩ : SymbolId),
      (⟨textOf raw', c.short, c.label⟩ : Definition)) :: after).map Prod.fst).Nodup := by
    rw [List.map_append, List.map_cons] at hnodup ⊢
    exact hnodup
  rw [← hl'] at hsays'
  obtain ⟨hfine', htable'⟩ := read_fail_of_says hsays' hnodup'
  refine ⟨hfine', declaringClass, hl ▸ hclass, ?_⟩
  rw [OrderedMap.insertAll_middle hnodup] at htable
  have hnew : (l'.read ⟨display, .fail⟩ ∅).table = (l.read ⟨display, .fail⟩ ∅).table.insert
      ⟨declaringClass, c.kind, c.signature⟩ ⟨textOf raw', c.short, c.label⟩ := by
    rw [htable', htable, OrderedMap.insertAll_middle hnodup', OrderedMap.insert_insert]
  rw [hnew]
  have hold : (l.read ⟨display, .fail⟩ ∅).table.get? ⟨declaringClass, c.kind, c.signature⟩ =
      some ⟨textOf raw, c.short, c.label⟩ := by
    rw [htable, OrderedMap.get?_insert, if_pos rfl]
  exact Report.entries_between_insert hold

def tankWith (level : Text) : Listing where
  source := "Tank".toList
  text := "public class Tank \x7b\n".toList ++ level ++ "\n  void drain();\n\x7d\n".toList

def oldLevel : Text := "  int level = 1;".toList

def newLevel : Text := "  protected  static int level =;".toList

open Declaration in
theorem between_tankWith : let b := "int level".toList
    let c : Classification := ⟨.field, "level".toList, b, "field".toList⟩
    let old := (tankWith oldLevel).read ⟨default, .fail⟩ ∅
    let new := (tankWith newLevel).read ⟨default, .fail⟩ ∅
    old.failure = none ∧ Edits oldLevel newLevel (tankWith oldLevel) (tankWith newLevel) ∧
    classify default b = .ok c ∧ IsVariant b (textOf oldLevel) ∧ IsVariant b (textOf newLevel) ∧
    new.failure = none ∧ ∃ declaringClass,
      declaringClass? default (tankWith oldLevel).declarations = some declaringClass ∧
      (Report.between old.table new.table).entries =
        if textOf oldLevel = textOf newLevel then []
        else [(declaringClass, [.modification ⟨declaringClass, c.kind, c.signature⟩
          ⟨textOf oldLevel, c.short, c.label⟩ ⟨textOf newLevel, c.short, c.label⟩])] := by
  intro b c old new
  have hfine : old.failure = none := by decide +kernel
  have hedit : Edits oldLevel newLevel (tankWith oldLevel) (tankWith newLevel) :=
    ⟨["public class Tank \x7b".toList], ["  void drain();".toList], by decide +kernel,
      by decide +kernel⟩
  have hb : classify default b = .ok c := classify_eq_ok_iff.2 (by decide +kernel)
  have hrun : ModifierRun "protected  static ".toList :=
    @ModifierRun.cons "protected".toList "  ".toList "static ".toList (by decide) (by decide)
      (by decide) (@ModifierRun.cons "static".toList " ".toList [] (by decide) (by decide)
        (by decide) .nil)
  have hraw : IsVariant b (textOf oldLevel) :=
    ⟨[], " = 1".toList, .nil,
      @IsInitializer.value " ".toList " 1".toList (by decide) (by decide) (by decide),
      by decide +kernel⟩
  have hraw' : IsVariant b (textOf newLevel) :=
    ⟨"protected  static ".toList, " =".toList, hrun,
      @IsInitializer.value " ".toList [] (by decide) (by decide) (by decide), by decide +kernel⟩
  exact ⟨hfine, hedit, hb, hraw, hraw', between_edited hfine hedit hb hraw hraw'⟩

end Listing
end Surface
