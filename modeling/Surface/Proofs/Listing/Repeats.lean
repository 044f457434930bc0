import Mathlib.Data.List.Nodup
import Surface.Proofs.Listing.Outline

/-! # Repeated identities

Listings may declare an identity twice. Reading that lets the later definition win and reading that
refuses it go on alike up to the first declaration that repeats an identity, and there the second
one ends. So they differ only where something is repeated, and then the failure names the first
repeat.
-/

namespace Surface

/-- The first entry whose identity an entry in front of it has declared. -/
def FirstRepeat (entries : List Entry) (e : Entry) : Prop :=
  ∃ front behind, entries = front ++ e :: behind ∧ (front.map Entry.id).Nodup ∧
    e.id ∈ front.map Entry.id

theorem exists_firstRepeat {entries : List Entry} (h : ¬ (entries.map Entry.id).Nodup) :
    ∃ e, FirstRepeat entries e := by
  induction entries using List.reverseRecOn with
  | nil => exact absurd List.nodup_nil h
  | append_singleton entries e ih =>
    by_cases hnodup : (entries.map Entry.id).Nodup
    · refine ⟨e, entries, [], rfl, hnodup, Decidable.byContradiction fun hnew => h ?_⟩
      rw [List.map_append, List.nodup_append]
      refine ⟨hnodup, List.nodup_singleton _, fun id hid other hother => ?_⟩
      rw [List.map_singleton, List.mem_singleton] at hother
      rintro rfl
      exact hnew (hother ▸ hid)
    · obtain ⟨e', front, behind, rfl, hfront, hid⟩ := ih hnodup
      exact ⟨e', front, behind ++ [e], by simp, hfront, hid⟩

namespace Outline

variable {o : Outline}

/-- Without a repeat the two policies do the same, and nothing is overwritten. -/
theorem define_fail_eq_overwrite (h : o.ids.Nodup) :
    o.define .overwrite ∅ = o.define .fail ∅ := by
  rw [define_of_nodup h fun _ _ => rfl, define_of_nodup h fun _ _ => rfl]

theorem overwritten_notMem_events (h : o.ids.Nodup) (hstop : o.stop = none)
    (duplicates : DuplicatePolicy) (source : Text) (line : Nat) :
    .overwritten source line ∉ (o.define duplicates ∅).events := by
  rw [define_of_distinct h hstop]
  intro hmem
  obtain ⟨e, -, he⟩ := List.mem_map.1 hmem
  cases he

/-- Where repeats are refused, the first one ends the reading. -/
theorem define_fail_of_firstRepeat {e : Entry} (h : FirstRepeat o.entries e) :
    ∃ f, (o.define .fail ∅).failure = some f ∧
      f.Reports e.source e.line (.duplicate e.id.declaringClass e.id.signature) := by
  obtain ⟨entries, stop⟩ := o
  obtain ⟨front, behind, rfl, hfront, hid⟩ := h
  have hparts : (⟨front ++ e :: behind, stop⟩ : Outline) =
      append ⟨front, none⟩ (cons e ⟨behind, stop⟩) := rfl
  have hread : (⟨front, none⟩ : Outline).define .fail ∅ =
      ⟨OrderedMap.insertAll ∅ (front.map Entry.row), front.map Entry.classified, none⟩ :=
    @define_of_distinct ⟨front, none⟩ hfront rfl .fail
  have hcontains : (OrderedMap.insertAll ∅ (front.map Entry.row)).contains e.id = true := by
    obtain ⟨other, hother, hsame⟩ := List.mem_map.1 hid
    have hkeys : ((front.map Entry.row).map Prod.fst).Nodup := by
      rw [List.map_map]
      exact hfront
    rw [OrderedMap.contains, ← hsame,
      OrderedMap.get?_insertAll_of_mem hkeys (List.mem_map_of_mem hother)]
    rfl
  refine ⟨_, ?_, Listing.reports_failureAt e.source e.line _⟩
  rw [hparts, define_append, hread, Progress.failure_andThen rfl, define_cons,
    Entry.define_of_repeated hcontains]
  rfl

end Outline

/-- Reading that refuses repeats succeeds where nothing is repeated and no line declares nothing. -/
theorem Outline.failure_define_fail_eq_none_iff {o : Outline} :
    (o.define .fail ∅).failure = none ↔ o.ids.Nodup ∧ o.stop = none := by
  constructor
  · intro hfine
    have hnodup : o.ids.Nodup := by
      by_contra h
      obtain ⟨e, he⟩ := exists_firstRepeat h
      obtain ⟨f, hf, -⟩ := define_fail_of_firstRepeat he
      rw [hfine] at hf
      cases hf
    refine ⟨hnodup, ?_⟩
    rw [← define_fail_eq_overwrite hnodup, (o.define_overwrite ∅).1] at hfine
    exact Option.map_eq_none_iff.1 hfine
  · rintro ⟨hnodup, hstop⟩
    rw [define_of_distinct hnodup hstop]

namespace Listing

/-- Without a repeat nothing is overwritten and the duplicate policy makes no difference. The first
repeat ends the reading that refuses it, unless a line that declares nothing has ended both
before. -/
theorem readAll_duplicates (display : DisplayPolicy) (listings : List Listing) :
    let o := outlineAll display listings
    let overwriting := readAll ⟨display, .overwrite⟩ listings ∅
    let refusing := readAll ⟨display, .fail⟩ listings ∅
    let RefusesFirstRepeat := ∃ e f, FirstRepeat o.entries e ∧ refusing.failure = some f ∧
      f.Reports e.source e.line (.duplicate e.id.declaringClass e.id.signature)
    (refusing.failure = none →
      overwriting.failure = none ∧ overwriting.table = refusing.table ∧
        ∀ source line, .overwritten source line ∉ overwriting.events) ∧
    (overwriting.failure = none → o.stop = none ∧
      (refusing.failure = none ↔ (o.entries.map Entry.id).Nodup) ∧
      (¬ (o.entries.map Entry.id).Nodup → RefusesFirstRepeat)) ∧
    ∀ f, overwriting.failure = some f → o.stop.map Stop.failure = some f ∧
      (refusing.failure = some f ∨ RefusesFirstRepeat) := by
  intro o overwriting refusing RefusesFirstRepeat
  have hoverwriting : overwriting = o.define .overwrite ∅ :=
    congrFun (readAll_eq_define listings) ∅
  have hrefusing : refusing = o.define .fail ∅ := congrFun (readAll_eq_define listings) ∅
  have hfailure : overwriting.failure = o.stop.map Stop.failure := by
    rw [hoverwriting]
    exact (o.define_overwrite ∅).1
  have hsame : o.ids.Nodup → overwriting = refusing := by
    intro h
    rw [hoverwriting, hrefusing, Outline.define_fail_eq_overwrite h]
  have hrepeat : ¬ o.ids.Nodup → RefusesFirstRepeat := by
    intro h
    obtain ⟨e, he⟩ := exists_firstRepeat h
    obtain ⟨f, hf, hreports⟩ := Outline.define_fail_of_firstRepeat he
    exact ⟨e, f, he, hrefusing ▸ hf, hreports⟩
  have hfine_iff : refusing.failure = none ↔ o.ids.Nodup ∧ o.stop = none := by
    rw [hrefusing]
    exact Outline.failure_define_fail_eq_none_iff
  refine ⟨fun hfine => ?_, fun hfine => ?_, fun f hf => ?_⟩
  · obtain ⟨hnodup, hstop⟩ := hfine_iff.1 hfine
    have heq := hsame hnodup
    refine ⟨heq ▸ hfine, by rw [heq], fun source line => ?_⟩
    rw [hoverwriting]
    exact Outline.overwritten_notMem_events hnodup hstop .overwrite source line
  · rw [hfailure, Option.map_eq_none_iff] at hfine
    exact ⟨hfine, hfine_iff.trans (and_iff_left hfine), hrepeat⟩
  · refine ⟨hfailure ▸ hf, ?_⟩
    by_cases hnodup : o.ids.Nodup
    · exact .inl (hsame hnodup ▸ hf)
    · exact .inr (hrepeat hnodup)

def hat : Listing where
  source := "hat".toList
  text := "class Hat \x7b\n  int size;\n  void lift(int height);\n\x7d\n".toList

theorem readAll_hats : (readAll ⟨default, .overwrite⟩ [hat, hat] ∅).failure = none ∧
    ¬ ((outlineAll default [hat, hat]).entries.map Entry.id).Nodup ∧
    ∃ e f, FirstRepeat (outlineAll default [hat, hat]).entries e ∧
      (readAll ⟨default, .fail⟩ [hat, hat] ∅).failure = some f ∧
      f.Reports e.source e.line (.duplicate e.id.declaringClass e.id.signature) := by
  have hfine : (readAll ⟨default, .overwrite⟩ [hat, hat] ∅).failure = none := by decide +kernel
  have hrepeat : ¬ ((outlineAll default [hat, hat]).entries.map Entry.id).Nodup := by
    decide +kernel
  exact ⟨hfine, hrepeat, ((readAll_duplicates default [hat, hat]).2.1 hfine).2.2 hrepeat⟩

end Listing
end Surface
