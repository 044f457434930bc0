import Mathlib.Data.List.Forall2
import Surface.Proofs.Display
import Surface.Proofs.Listing.Repeats

/-! # Listings in another order

Listings that repeat no identity can be read in any order, and each with its members in any order:
the table is the same, and so is every report on it.
-/

namespace Surface

namespace Listing

/-- The same lines with the members in another order; the header stays in front, and the closing
line is not read. -/
inductive Shuffles (l l' : Listing) : Prop
  | nothing : l.declarations = [] → l'.declarations = [] → Shuffles l l'
  | members {header : Text} {members members' : List Text} :
      l.declarations = header :: members → l'.declarations = header :: members' →
      members.Perm members' → Shuffles l l'

/-- The listings in another order, each with its members in another order. -/
def Rearranges (listings listings' : List Listing) : Prop :=
  ∃ order, listings.Perm order ∧ List.Forall₂ Shuffles order listings'

variable {display : DisplayPolicy} {listings listings' : List Listing} {l l' : Listing}

theorem Says.perm {header : Text} {members members' : List Text}
    {rows : List (SymbolId × Definition)} (h : Says display (header :: members) rows)
    (hperm : members.Perm members') :
    ∃ rows', Says display (header :: members') rows' ∧ rows.Perm rows' := by
  cases h with
  | @cons _ _ c _ hc hkind hrows =>
    have hlines : (header :: members).Perm (header :: members') := hperm.cons header
    obtain ⟨rfl, hall⟩ := map_eq_map_some_iff.1 hrows
    refine ⟨_, .cons hc hkind (map_eq_map_some_iff.2 ⟨rfl, fun raw hraw => ?_⟩),
      hlines.filterMap (rowOf? display c.signature)⟩
    exact hall raw (hlines.mem_iff.2 hraw)

/-- Without a stop, what shuffled listings say is shuffled too. -/
theorem Shuffles.outline (h : Shuffles l l') (hstop : (l.outline display).stop = none) :
    (l'.outline display).stop = none ∧
      (l.outline display).rows.Perm (l'.outline display).rows := by
  have hsays : Says display l.declarations (l.outline display).rows := says_iff.2 ⟨hstop, rfl⟩
  cases h with
  | nothing hl hl' =>
    rw [hl, ← hl'] at hsays
    obtain ⟨hstop', hrows⟩ := says_iff.1 hsays
    exact ⟨hstop', .of_eq hrows.symm⟩
  | members hl hl' hperm =>
    rw [hl] at hsays
    obtain ⟨rows', hsays', hrows⟩ := hsays.perm hperm
    rw [← hl'] at hsays'
    obtain ⟨hstop', rfl⟩ := says_iff.1 hsays'
    exact ⟨hstop', hrows⟩

theorem Rearranges.outlineAll (h : Rearranges listings listings')
    (hstop : (outlineAll display listings).stop = none) :
    (Listing.outlineAll display listings').stop = none ∧
      (Listing.outlineAll display listings).rows.Perm
        (Listing.outlineAll display listings').rows := by
  obtain ⟨order, hperm, hshuffles⟩ := h
  rw [stop_outlineAll_eq_none_iff] at hstop ⊢
  have horder : ∀ l ∈ order, (l.outline display).stop = none :=
    fun l hl => hstop l (hperm.mem_iff.2 hl)
  have hlistings' : (∀ l ∈ listings', (l.outline display).stop = none) ∧
      (order.flatMap fun l => (l.outline display).rows).Perm
        (listings'.flatMap fun l => (l.outline display).rows) := by
    clear hperm hstop
    induction hshuffles with
    | nil => exact ⟨horder, .nil⟩
    | cons hl _ ih =>
      obtain ⟨hfirst, hrest⟩ := List.forall_mem_cons.1 horder
      obtain ⟨hstop', hrows⟩ := hl.outline hfirst
      obtain ⟨hstops, hmore⟩ := ih hrest
      exact ⟨List.forall_mem_cons.2 ⟨hstop', hstops⟩, hrows.append hmore⟩
  refine ⟨hlistings'.1, ?_⟩
  rw [rows_outlineAll hstop, rows_outlineAll hlistings'.1]
  exact (hperm.flatMap_right _).trans hlistings'.2

/-- Rearranged listings are read to the same table, whatever a second definition would do. -/
theorem readAll_rearranged (hfine : (readAll ⟨display, .fail⟩ listings ∅).failure = none)
    (h : Rearranges listings listings') (duplicates : DuplicatePolicy) :
    (readAll ⟨display, duplicates⟩ listings' ∅).failure = none ∧
      (readAll ⟨display, duplicates⟩ listings' ∅).table =
        (readAll ⟨display, .fail⟩ listings ∅).table := by
  rw [readAll_eq_define] at hfine
  obtain ⟨hnodup, hstop⟩ := Outline.failure_define_fail_eq_none_iff.1 hfine
  obtain ⟨hstop', hrows⟩ := h.outlineAll hstop
  have hkeys : ((outlineAll display listings).rows.map Prod.fst).Nodup := by
    rwa [Outline.map_fst_rows]
  have hnodup' : (outlineAll display listings').ids.Nodup := by
    rw [← Outline.map_fst_rows]
    exact (hrows.map Prod.fst).nodup_iff.1 hkeys
  rw [readAll_eq_define, readAll_eq_define, Outline.define_of_distinct hnodup hstop,
    Outline.define_of_distinct hnodup' hstop']
  exact ⟨rfl, (OrderedMap.insertAll_perm hrows hkeys ∅).symm⟩

end Listing

namespace Report

open Listing

theorem result_betweenListings {options : ReadOptions} {old new : List Listing}
    (hold : (readAll options old ∅).failure = none)
    (hnew : (readAll options new ∅).failure = none) :
    (betweenListings options old new).result =
      .ok (between (readAll options old ∅).table (readAll options new ∅).table) := by
  simp only [betweenListings, Progress.traced, hold, hnew, Traced.bind, betweenTraced]

/-- However the listings are arranged, they are read to the same table under either duplicate
policy, and the report between two such tables is written in the same way. -/
theorem render_rearranged (display : DisplayPolicy) :
    (∀ listings listings' : List Listing,
      (readAll ⟨display, .fail⟩ listings ∅).failure = none → Rearranges listings listings' →
      ∀ duplicates, (readAll ⟨display, duplicates⟩ listings' ∅).failure = none ∧
        (readAll ⟨display, duplicates⟩ listings' ∅).table =
          (readAll ⟨display, .fail⟩ listings ∅).table) ∧
    ∀ old old' new new' : List Listing,
      (readAll ⟨display, .fail⟩ old ∅).failure = none →
      (readAll ⟨display, .fail⟩ new ∅).failure = none →
      Rearranges old old' → Rearranges new new' →
      ∀ (duplicates : DuplicatePolicy) (config : Config),
        ∃ output, ((betweenListings ⟨display, .fail⟩ old new).map (render config)).result =
            .ok output ∧
          ((betweenListings ⟨display, duplicates⟩ old' new').map (render config)).result =
            .ok output := by
  refine ⟨fun _ _ hfine h => readAll_rearranged hfine h, ?_⟩
  intro old old' new new' hold hnew hold' hnew' duplicates config
  obtain ⟨hfineOld, hsameOld⟩ := readAll_rearranged hold hold' duplicates
  obtain ⟨hfineNew, hsameNew⟩ := readAll_rearranged hnew hnew' duplicates
  simp only [Traced.map, result_betweenListings hold hnew,
    result_betweenListings hfineOld hfineNew, hsameOld, hsameNew]
  exact ⟨_, rfl, rfl⟩

def hatTurned : Listing where
  source := "other".toList
  text := "class Hat \x7b\n  void lift(int height);\n  int size;\n\x7d\n".toList

def coat : Listing where
  source := "coat".toList
  text := "public class Coat \x7b\n  Coat(int buttons);\n\x7d\n".toList

theorem render_rearranged_clothes :
    (readAll ⟨default, .fail⟩ [coat, hat] ∅).failure = none ∧
    Rearranges [coat, hat] [hatTurned, coat] ∧
    (readAll ⟨default, .overwrite⟩ [hatTurned, coat] ∅).table =
      (readAll ⟨default, .fail⟩ [coat, hat] ∅).table ∧
    ∃ output, ((betweenListings ⟨default, .fail⟩ [coat] [coat, hat]).map (render default)).result =
        .ok output ∧
      ((betweenListings ⟨default, .overwrite⟩ [coat] [hatTurned, coat]).map
        (render default)).result = .ok output := by
  have hcoat : (readAll ⟨default, .fail⟩ [coat] ∅).failure = none := by decide +kernel
  have hfine : (readAll ⟨default, .fail⟩ [coat, hat] ∅).failure = none := by decide +kernel
  have hhat : Shuffles hat hatTurned :=
    @Shuffles.members hat hatTurned "class Hat \x7b".toList
      ["  int size;".toList, "  void lift(int height);".toList] _ (by decide +kernel)
      (by decide +kernel) (List.reverse_perm _).symm
  have hsame : Shuffles coat coat :=
    @Shuffles.members coat coat "public class Coat \x7b".toList
      ["  Coat(int buttons);".toList] _ (by decide +kernel) (by decide +kernel) (.refl _)
  have hrearranged : Rearranges [coat, hat] [hatTurned, coat] :=
    ⟨[hat, coat], .swap _ _ _, .cons hhat (.cons hsame .nil)⟩
  have hcoats : Rearranges [coat] [coat] := ⟨[coat], .refl _, .cons hsame .nil⟩
  obtain ⟨hread, hrender⟩ := render_rearranged default
  exact ⟨hfine, hrearranged, (hread _ _ hfine hrearranged .overwrite).2,
    hrender _ _ _ _ hcoat hfine hcoats hrearranged .overwrite default⟩

end Report
end Surface
