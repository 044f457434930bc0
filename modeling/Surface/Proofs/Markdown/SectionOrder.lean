import Surface.Proofs.Markdown.Sections
import Surface.Proofs.Symbol

/-! # The order of the sections

Each class of a report has one section. The sections are in the order of the simplified class names,
and classes that are left with the same name stand in the order of their full names, since sorting
keeps the order of what it finds tied.
-/

namespace Surface

section Stability

variable {α : Type} {le : α → α → Bool}
  (trans : ∀ a b c, le a b = true → le b c = true → le a c = true)
  (total : ∀ a b, (le a b || le b a) = true)

include trans total

/-- Elements that are all tied with each other are found in the order that they had. -/
theorem filter_mergeSort {p : α → Bool} (hp : ∀ a b, p a = true → p b = true → le a b = true)
    (l : List α) : (l.mergeSort le).filter p = l.filter p := by
  have hsorted : (l.filter p).Pairwise fun a b => le a b = true := by
    apply List.pairwise_of_forall_mem_list
    intro a ha b hb
    exact hp a b (List.mem_filter.1 ha).2 (List.mem_filter.1 hb).2
  have hsub := (List.sublist_mergeSort trans total hsorted List.filter_sublist).filter p
  simp only [List.filter_filter, Bool.and_self] at hsub
  exact (hsub.eq_of_length ((List.mergeSort_perm l le).filter p).length_eq.symm).symm

/-- A list that is in some order is sorted by another one, and by its own where that leaves ties. -/
theorem pairwise_mergeSort_tied {r : α → α → Prop} {l : List α} (hl : l.Pairwise r) :
    (l.mergeSort le).Pairwise fun a b => le a b = true ∧ (le b a = true → r a b) := by
  rw [List.pairwise_iff_forall_sublist]
  intro a b hab
  have hle := List.pairwise_iff_forall_sublist.1 (List.pairwise_mergeSort trans total l) hab
  refine ⟨hle, fun hge => ?_⟩
  have htied := hab.filter fun x => le x a && le a x
  have hself : le a a = true := by simpa using total a a
  rw [filter_mergeSort trans total fun x y hx hy => ?_] at htied
  · apply List.pairwise_iff_forall_sublist.1 hl
    simpa [hle, hge, hself] using htied.trans List.filter_sublist
  · simp only [Bool.and_eq_true] at hx hy
    exact trans x a y hx.1 hy.2

end Stability

namespace Markdown

variable {s : Simplifier} {report : Report}

/-- The section of `c` stands before that of `c'`. -/
def ClassPrecedes (s : Simplifier) (c c' : Text) : Prop :=
  (s.simplify c).bytes < (s.simplify c').bytes ∨ s.simplify c = s.simplify c' ∧ c.bytes < c'.bytes

/-- The classes of a report, each once, in the order of their sections. -/
structure InSectionOrder (s : Simplifier) (report : Report) (order : List Text) : Prop where
  perm : order.Perm report.keys
  sorted : order.Pairwise (ClassPrecedes s)

theorem classPrecedes_of_tied {c c' : Text}
    (hle : (compare (s.simplify c) (s.simplify c')).isLE = true)
    (htied : (compare (s.simplify c') (s.simplify c)).isLE = true → compare c c' = .lt) :
    ClassPrecedes s c c' := by
  cases h : compare (s.simplify c) (s.simplify c') with
  | lt => exact .inl (Text.compare_eq_lt_iff.1 h)
  | eq =>
    have hsame := Std.LawfulEqOrd.eq_of_compare h
    rw [hsame, Std.ReflOrd.compare_self] at htied
    exact .inr ⟨hsame, Text.compare_eq_lt_iff.1 (htied rfl)⟩
  | gt => simp [h] at hle

theorem inSectionOrder_classOrder (s : Simplifier) (report : Report) :
    InSectionOrder s report (classOrder s report) where
  perm := perm_classOrder s report
  sorted := by
    have trans : ∀ a b c, (compare (s.simplify a) (s.simplify b)).isLE = true →
        (compare (s.simplify b) (s.simplify c)).isLE = true →
        (compare (s.simplify a) (s.simplify c)).isLE = true :=
      fun _ _ _ => Std.TransCmp.isLE_trans
    have total : ∀ a b, ((compare (s.simplify a) (s.simplify b)).isLE ||
        (compare (s.simplify b) (s.simplify a)).isLE) = true := by
      intro a b
      cases h : compare (s.simplify a) (s.simplify b) with
      | lt | eq => simp
      | gt => simp [Std.OrientedCmp.lt_of_gt h]
    have hsorted := pairwise_mergeSort_tied trans total (OrderedMap.pairwise_keys report)
    exact hsorted.imp fun h => classPrecedes_of_tied h.1 h.2

theorem render_eq_nil_iff : render s report = [] ↔ report.keys = [] := by
  have hne : ∀ c, sectionOf s report c ≠ [] :=
    fun _ => List.append_ne_nil_of_right_ne_nil _ (by decide)
  rw [render_eq, List.flatMap_eq_nil_iff]
  constructor
  · intro h
    have hnil : classOrder s report = [] :=
      List.eq_nil_iff_forall_not_mem.2 fun c hc => hne c (h c hc)
    have hperm := perm_classOrder s report
    rw [hnil] at hperm
    exact hperm.nil_eq.symm
  · intro h c hc
    rw [(perm_classOrder s report).mem_iff, h] at hc
    cases hc

/-- A report is shown as the sections of its classes in their order, each made of the simplified
name and the changes of the class alone. Only a report without classes shows nothing. -/
theorem render_inOrder (s : Simplifier) (report : Report) :
    (∃ order, InSectionOrder s report order ∧ render s report =
      order.flatMap fun c => classSection s (s.simplify c) (report.changesFor c)) ∧
    (render s report = [] ↔ report.keys = []) :=
  ⟨⟨classOrder s report, inSectionOrder_classOrder s report, render_eq s report⟩,
    render_eq_nil_iff⟩

end Markdown
end Surface
