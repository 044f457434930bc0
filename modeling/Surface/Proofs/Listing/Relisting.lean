import Surface.Proofs.Listing.Reached
import Surface.Proofs.SymbolTable
import Surface.Proofs.Text.Lines

/-! # Listing a table again

A class of a table can be written as a listing: its type in the header, its other symbols as
members, each with its full declaration. Reading the listings of all classes gives the table back,
in whatever order classes and members come and whatever a second definition would do.
-/

namespace Surface

open Text

theorem Declaration.textOf_append {full g : Text} {c : Char} (hfull : trim full = full)
    (hg : IsBlanks g) (hc : isBlank c = false) : textOf (full ++ g ++ [c]) = full := by
  have hlast : SolidBehind [c] := by
    intro x hx
    cases hx
    exact hc
  have hahead : SolidAhead full := hfull ▸ solidAhead_trim full
  by_cases hnil : full = []
  · have htrim : trim (g ++ [c]) = [c] := by
      rw [trim_blanks_append hg]
      exact trim_eq_self hlast hlast
    rw [hnil, List.nil_append, textOf, htrim]
    rfl
  · have htrim : trim (full ++ g ++ [c]) = full ++ g ++ [c] := by
      apply trim_eq_self
      · rw [List.append_assoc]
        exact hahead.append hnil
      · exact hlast.append _ (List.cons_ne_nil _ _)
    rw [textOf, htrim, List.dropLast_concat, trim_append_blanks full hg, hfull]

namespace Listing

/-- The listing of a class, given the full declarations of its type and of its members. -/
def ofDeclarations (source header : Text) (members : List Text) : Listing where
  source := source
  text := unlines ((header ++ [' ', '{']) :: members.map (fun full => full ++ [';']) ++
    [['}']])

theorem isLine_append {full g : Text} {c : Char} (hfull : '\n' ∉ full) (hg : '\n' ∉ g)
    (hc : c ≠ '\n') (hr : c ≠ '\r') : IsLine (full ++ g ++ [c]) := by
  refine ⟨?_, by simpa using hr⟩
  simp only [List.mem_append, List.mem_singleton, not_or]
  exact ⟨⟨hfull, hg⟩, hc.symm⟩

theorem declarations_ofDeclarations {header : Text} {members : List Text} (source : Text)
    (hheader : '\n' ∉ header) (hmembers : ∀ full ∈ members, '\n' ∉ full) :
    (ofDeclarations source header members).declarations =
      (header ++ [' ', '{']) :: members.map fun full => full ++ [';'] := by
  unfold declarations ofDeclarations
  rw [lines_unlines, List.dropLast_concat]
  intro line hline
  simp only [List.mem_append, List.mem_cons, List.mem_map, List.not_mem_nil, or_false] at hline
  rcases hline with (rfl | ⟨full, hfull, rfl⟩) | rfl
  · have h : IsLine (header ++ [' '] ++ ['{']) :=
      isLine_append hheader (by decide) (by decide) (by decide)
    rwa [List.append_assoc] at h
  · have h : IsLine (full ++ [] ++ [';']) :=
      isLine_append (hmembers full hfull) (by decide) (by decide) (by decide)
    rwa [List.append_nil] at h
  · exact ⟨by decide, by decide⟩

end Listing

/-- Where the rows are new, the step succeeds and adds exactly them. -/
def Adds (step : SymbolTable → Progress) (rows : List (SymbolId × Definition)) : Prop :=
  ∀ table : SymbolTable, (rows.map Prod.fst).Nodup → (∀ row ∈ rows, table.get? row.1 = none) →
    (step table).failure = none ∧ (step table).table = table.insertAll rows

namespace Adds

variable {step next : SymbolTable → Progress} {rows more : List (SymbolId × Definition)}

theorem andThen (h : Adds step rows) (h' : Adds next more) :
    Adds (fun table => (step table).andThen next) (rows ++ more) := by
  intro table hnodup hnew
  rw [List.map_append, List.nodup_append] at hnodup
  obtain ⟨hrows, hmore, hdisjoint⟩ := hnodup
  obtain ⟨hfine, htable⟩ := h table hrows fun row hrow => hnew row (List.mem_append_left _ hrow)
  have hnew' : ∀ row ∈ more, (step table).table.get? row.1 = none := by
    intro row hrow
    rw [htable, OrderedMap.get?_insertAll_of_notMem]
    · exact hnew row (List.mem_append_right _ hrow)
    · intro hmem
      exact hdisjoint _ hmem _ (List.mem_map_of_mem hrow) rfl
  obtain ⟨hfine', htable'⟩ := h' (step table).table hmore hnew'
  simp only [Progress.andThen, hfine]
  exact ⟨hfine', by rw [htable', htable, OrderedMap.insertAll_append]⟩

theorem perm (h : Adds step rows) (hperm : rows.Perm more) : Adds step more := by
  intro table hnodup hnew
  have hrows := (hperm.map Prod.fst).nodup_iff.2 hnodup
  obtain ⟨hfine, htable⟩ := h table hrows fun row hrow => hnew row (hperm.mem_iff.1 hrow)
  exact ⟨hfine, htable.trans (OrderedMap.insertAll_perm hperm hrows table)⟩

theorem foldl {α : Type} {step : α → SymbolTable → Progress}
    {rows : α → List (SymbolId × Definition)} {xs : List α} (h : ∀ x ∈ xs, Adds (step x) (rows x)) :
    Adds (fun table => xs.foldl (fun p x => p.andThen (step x)) ⟨table, [], none⟩)
      (xs.flatMap rows) := by
  induction xs with
  | nil =>
    intro table _ _
    exact ⟨rfl, rfl⟩
  | cons x xs ih =>
    have hsteps : (fun table => (x :: xs).foldl (fun p x => p.andThen (step x)) ⟨table, [], none⟩) =
        fun table => (step x table).andThen fun table =>
          xs.foldl (fun p x => p.andThen (step x)) ⟨table, [], none⟩ := by
      funext table
      rw [List.foldl_cons, Progress.nil_andThen, Progress.foldl_andThen]
    rw [hsteps, List.flatMap_cons]
    exact (h x List.mem_cons_self).andThen (ih fun y hy => h y (List.mem_cons_of_mem _ hy))

end Adds

namespace Listing

variable {display : DisplayPolicy} {id : SymbolId} {d : Definition}

theorem adds_define (duplicates : DuplicatePolicy) (source : Text) (n : Nat)
    (declaringClass full : Text) (c : Classification) :
    Adds (define duplicates source n declaringClass full c)
      [(⟨declaringClass, c.kind, c.signature⟩, ⟨full, c.short, c.label⟩)] := by
  intro table _ hnew
  have hnone := hnew _ List.mem_cons_self
  rcases define_cases duplicates source n declaringClass full c table with ⟨-, -, hcontains⟩ | h
  · rw [OrderedMap.contains, hnone] at hcontains
    cases hcontains
  · exact h

theorem classifyLine_append {g : Text} {c : Char} (h : Declared display id d) (hg : IsBlanks g)
    (hc : isBlank c = false) (source : Text) (n : Nat) :
    classifyLine display source n (d.full ++ g ++ [c]) =
      .ok (d.full, ⟨id.kind, id.signature, d.short, d.label⟩) := by
  simp only [classifyLine, Declaration.textOf_append h.trimmed hg hc, Declaration.classify,
    h.classified]

theorem adds_readMember (h : Declared display id d) (duplicates : DuplicatePolicy) (source : Text)
    (n : Nat) : Adds (readMember ⟨display, duplicates⟩ source id.declaringClass
      (d.full ++ [';'], n)) [(id, d)] := by
  have hline := classifyLine_append (g := []) (c := ';') h (by decide) (by decide) source n
  rw [List.append_nil] at hline
  have hstep : readMember ⟨display, duplicates⟩ source id.declaringClass (d.full ++ [';'], n) =
      define duplicates source n id.declaringClass d.full
        ⟨id.kind, id.signature, d.short, d.label⟩ := by
    funext table
    unfold readMember
    rw [hline]
  rw [hstep]
  exact adds_define _ _ _ _ _ _

theorem adds_readMembers {members : List (SymbolId × Definition)} {declaringClass : Text}
    (hmembers : ∀ row ∈ members, row.1.declaringClass = declaringClass ∧
      Declared display row.1 row.2) (duplicates : DuplicatePolicy) (source : Text) :
    Adds (readMembers ⟨display, duplicates⟩ source declaringClass
      (members.map fun row => row.2.full ++ [';'])) members := by
  have hrows : (members.zipIdx 2).flatMap (fun row => [row.1]) = members := by
    rw [← List.map_eq_flatMap, List.zipIdx_map_fst]
  have hstep : ∀ row ∈ members.zipIdx 2, Adds (readMember ⟨display, duplicates⟩ source
      declaringClass (row.1.2.full ++ [';'], row.2)) [row.1] := by
    intro row hrow
    obtain ⟨hclass, hdeclared⟩ := hmembers row.1 (List.fst_mem_of_mem_zipIdx hrow)
    exact hclass ▸ adds_readMember hdeclared duplicates source row.2
  have h := Adds.foldl hstep
  rw [hrows] at h
  unfold readMembers
  simp only [List.zipIdx_map, List.foldl_map]
  exact h

theorem readDeclarations_cons (options : ReadOptions) {source header full : Text}
    {c : Classification} (h : classifyLine options.display source 1 header = .ok (full, c))
    (hkind : c.kind = .type) (members : List Text) (table : SymbolTable) :
    readDeclarations options source table (header :: members) =
      (define options.duplicates source 1 c.signature full c table).andThen
        (readMembers options source c.signature members) := by
  rw [readDeclarations, h]
  exact if_pos hkind

theorem adds_read {header : Definition} {members : List (SymbolId × Definition)}
    {declaringClass : Text} (hheader : Declared display (.ofClass declaringClass) header)
    (hmembers : ∀ row ∈ members, row.1.declaringClass = declaringClass ∧
      Declared display row.1 row.2) (duplicates : DuplicatePolicy) (source : Text) :
    Adds ((ofDeclarations source header.full (members.map fun row => row.2.full)).read
      ⟨display, duplicates⟩) ((.ofClass declaringClass, header) :: members) := by
  have hline := classifyLine_append (g := [' ']) (c := '{') hheader (by decide) (by decide) source 1
  rw [List.append_assoc] at hline
  have hstep : (ofDeclarations source header.full (members.map fun row => row.2.full)).read
      ⟨display, duplicates⟩ = fun table =>
        (define duplicates source 1 declaringClass header.full
          ⟨.type, declaringClass, header.short, header.label⟩ table).andThen
        (readMembers ⟨display, duplicates⟩ source declaringClass
          (members.map fun row => row.2.full ++ [';'])) := by
    funext table
    have hfulls : ∀ full ∈ members.map fun row => row.2.full, '\n' ∉ full := by
      intro full hfull
      obtain ⟨row, hrow, rfl⟩ := List.mem_map.1 hfull
      exact (hmembers row hrow).2.oneLine
    unfold read
    rw [declarations_ofDeclarations source hheader.oneLine hfulls, List.map_map]
    exact readDeclarations_cons ⟨display, duplicates⟩ hline rfl _ table
  rw [hstep]
  exact (adds_define _ _ _ _ _ _).andThen (adds_readMembers hmembers duplicates source)

/-- The listing gives a class of the table again, its members in any order. -/
def Relists (table : SymbolTable) (c : Text) (l : Listing) : Prop :=
  ∃ (header : Definition) (members : List (SymbolId × Definition)),
    table.get? (.ofClass c) = some header ∧
    members.Perm ((table.rowsOf c).filter fun row => row.1 ≠ .ofClass c) ∧
    l = ofDeclarations l.source header.full (members.map fun row => row.2.full)

theorem adds_relisting {table : SymbolTable} (h : ReachedUnder display table) {c : Text}
    {l : Listing} (hl : Relists table c l) (duplicates : DuplicatePolicy) :
    Adds (l.read ⟨display, duplicates⟩) (table.rowsOf c) := by
  obtain ⟨header, members, hheader, hmembers, hl⟩ := hl
  have hdeclared : ∀ row ∈ members, row.1.declaringClass = c ∧ Declared display row.1 row.2 := by
    intro row hrow
    obtain ⟨hget, hclass⟩ := SymbolTable.mem_rowsOf_iff.1
      (List.mem_of_mem_filter (hmembers.mem_iff.1 hrow))
    exact ⟨hclass, h.declared hget⟩
  have hread := adds_read (h.declared hheader) hdeclared duplicates l.source
  rw [← hl] at hread
  exact hread.perm ((hmembers.cons _).trans (SymbolTable.perm_rowsOf hheader))

/-- Each class of a table that has been read has its own type, and the listings of all classes, in
any order, give the table back without a failure, whatever a second definition would do. -/
theorem readAll_relisting {table : SymbolTable} (h : ReachedUnder display table) :
    (∀ c ∈ table.classes, table.contains (.ofClass c) = true) ∧
    ∀ (order : List Text) (relisting : Text → Listing), order.Perm table.classes →
      (∀ c ∈ order, Relists table c (relisting c)) → ∀ duplicates : DuplicatePolicy,
        (readAll ⟨display, duplicates⟩ (order.map relisting) ∅).failure = none ∧
        (readAll ⟨display, duplicates⟩ (order.map relisting) ∅).table = table := by
  constructor
  · intro c hc
    obtain ⟨id, hid, rfl⟩ := SymbolTable.mem_classes_iff.1 hc
    exact h.contains_ofClass hid
  · intro order relisting horder hrelists duplicates
    have hnodup := table.nodup_flatMap_rowsOf (horder.nodup_iff.2 table.nodup_classes)
    have hadds := Adds.foldl fun c hc => adds_relisting h (hrelists c hc) duplicates
    obtain ⟨hfine, htable⟩ := hadds ∅ hnodup fun _ _ => rfl
    rw [OrderedMap.insertAll_empty hnodup fun row =>
      SymbolTable.mem_flatMap_rowsOf_iff horder] at htable
    rw [readAll, List.foldl_map]
    exact ⟨hfine, htable⟩

def widget : Listing where
  source := "widget".toList
  text := "public class Widget  \x7b\n  int size ;\n  void draw(int x);\n\x7d".toList

def gauge : Listing where
  source := "gauge".toList
  text := "interface Gauge \x7b\n  int level();\n\x7d".toList

def gadgets : SymbolTable := .ofList [
  (.ofClass "Gauge".toList, ⟨"interface Gauge".toList, "Gauge".toList, "interface".toList⟩),
  (⟨"Gauge".toList, .method, "level()".toList⟩,
    ⟨"int level()".toList, "int level()".toList, "method".toList⟩),
  (.ofClass "Widget".toList, ⟨"public class Widget".toList, "Widget".toList, "class".toList⟩),
  (⟨"Widget".toList, .field, "size".toList⟩,
    ⟨"int size".toList, "int size".toList, "field".toList⟩),
  (⟨"Widget".toList, .method, "draw(int x)".toList⟩,
    ⟨"void draw(int x)".toList, "void draw(int x)".toList, "method".toList⟩)]

def gadgetAgain (c : Text) : Listing where
  source := c
  text :=
    if c = "Widget".toList then
      "public class Widget \x7b\nvoid draw(int x);\nint size;\n\x7d\n".toList
    else "interface Gauge \x7b\nint level();\n\x7d\n".toList

theorem readAll_gadgetAgain : ReachedUnder default gadgets ∧
    ["Widget".toList, "Gauge".toList].Perm gadgets.classes ∧
    (∀ c ∈ ["Widget".toList, "Gauge".toList], Relists gadgets c (gadgetAgain c)) ∧
    (readAll ⟨default, .fail⟩ (["Widget".toList, "Gauge".toList].map gadgetAgain) ∅).failure =
      none ∧
    (readAll ⟨default, .fail⟩ (["Widget".toList, "Gauge".toList].map gadgetAgain) ∅).table =
      gadgets := by
  have hread : (gauge.read default (widget.read default ∅).table).table = gadgets := by
    decide +kernel
  have hreached : ReachedUnder default gadgets := hread ▸ .read gauge rfl (.read widget rfl .empty)
  have horder : ["Widget".toList, "Gauge".toList].Perm gadgets.classes := by decide +kernel
  have hrelists : ∀ c ∈ ["Widget".toList, "Gauge".toList], Relists gadgets c (gadgetAgain c) := by
    intro c hc
    rw [List.mem_cons, List.mem_singleton] at hc
    rcases hc with rfl | rfl
    · exact ⟨⟨"public class Widget".toList, "Widget".toList, "class".toList⟩, _,
        by decide +kernel, List.reverse_perm _, by decide +kernel⟩
    · exact ⟨⟨"interface Gauge".toList, "Gauge".toList, "interface".toList⟩, _,
        by decide +kernel, .refl _, by decide +kernel⟩
  exact ⟨hreached, horder, hrelists,
    (readAll_relisting hreached).2 _ gadgetAgain horder hrelists .fail⟩

end Listing
end Surface
