import Surface.Markdown
import Surface.Proofs.Listing.Outline
import Surface.Proofs.Listing.Relisting
import Surface.Proofs.Report.Exactness
import Surface.Proofs.Simplifier

/-! # Values of constants in the rows of a modification

The full text of a declaration keeps the value behind `=`, so a constant with another value is
modified. In the rows of the modification the value is simplified like any other text: it is taken
for names, and what stands in front of the last `.` and the last `$` of a name is not shown.
-/

namespace Surface

open Text

namespace Declaration

/-- A declarator with a value. -/
def valued (d v : Text) : Text := d ++ " = ".toList ++ v

theorem textOf_concat {c : Char} (hc : isBlank c = false) (t : Text) :
    textOf (t ++ [c]) = trim t := by
  obtain ⟨g, hg, ht⟩ := exists_blanks_trimStart t
  obtain ⟨g', hg', ht'⟩ := exists_trimEnd_blanks (trimStart t)
  have hline : t ++ [c] = g ++ (trim t ++ g' ++ [c]) := by
    rw [trim, ← ht', ← List.append_assoc, ← ht]
  have hfront : textOf (g ++ (trim t ++ g' ++ [c])) = textOf (trim t ++ g' ++ [c]) := by
    rw [textOf, trim_blanks_append hg, textOf]
  rw [hline, hfront, textOf_append (trim_trim t) hg' hc]

/-- The declarator and the word `=` begin the full text, and a value follows them behind a blank. -/
theorem trim_valued {v : Text} (hv : trim v = v) (d : Text) :
    trim (valued d v) = trimStart (d ++ [' ', '=']) ++ if v = [] then [] else ' ' :: v := by
  obtain ⟨g, hg, hd⟩ := exists_blanks_trimStart (d ++ [' ', '='])
  have hsolid : SolidBehind (d ++ [' ', '=']) :=
    SolidBehind.append d (by decide) (List.cons_ne_nil _ _)
  have hne : trimStart (d ++ [' ', '=']) ≠ [] := by
    intro hnil
    rw [hnil, List.append_nil] at hd
    have hblank : isBlank '=' = true := hg '=' (by simp [← hd])
    exact absurd hblank (by decide)
  have hline : valued d v = g ++ (trimStart (d ++ [' ', '=']) ++ ' ' :: v) := by
    rw [← List.append_assoc, ← hd]
    simp [valued]
  have hahead := solidAhead_trimStart (d ++ [' ', '='])
  rw [hline, trim_blanks_append hg]
  by_cases hnil : v = []
  · rw [if_pos hnil, hnil, trim_append_blanks _ (g := [' ']) (by decide), List.append_nil]
    apply trim_eq_self hahead
    rw [hd] at hsolid
    exact hsolid.of_append hne
  · rw [if_neg hnil]
    apply trim_eq_self (hahead.append hne)
    apply SolidBehind.append _ _ (List.cons_ne_nil _ _)
    exact SolidBehind.append [' '] (hv ▸ solidBehind_trim v) hnil

theorem trim_valued_inj {v w : Text} (hv : trim v = v) (hw : trim w = w) {d : Text} :
    trim (valued d v) = trim (valued d w) ↔ v = w := by
  rw [trim_valued hv, trim_valued hw, List.append_cancel_left_eq]
  by_cases hnv : v = [] <;> by_cases hnw : w = [] <;> simp [hnv, hnw, eq_comm]

end Declaration

namespace Markdown

open Declaration Simplifier

variable {display : DisplayPolicy} {declaringClass d v w : Text} {id : SymbolId}
  {old new : Definition} {before after : SymbolTable}

theorem full_of_valued (h : Listing.rowOf? display declaringClass (valued d v ++ [';']) =
    some (id, old)) : old.full = trim (valued d v) := by
  obtain ⟨c, -, hrow⟩ := Option.map_eq_some_iff.1 h
  cases hrow
  exact textOf_concat (by decide) (valued d v)

/-- Declarations with a value each are simplified alike if both values are missing, or neither is
and they have the same boundaries with the same simple names between them. -/
theorem simplify_valued_eq_iff (s : Simplifier) (hv : trim v = v) (hw : trim w = w) (d : Text) :
    s.simplify (trim (valued d v)) = s.simplify (trim (valued d w)) ↔
      (v = [] ↔ w = []) ∧ s.simpleNames v = s.simpleNames w := by
  have hblank : s.isBoundary ' ' = true := by
    have : isBlank ' ' = true := by decide
    simp [Simplifier.isBoundary, this]
  rw [trim_valued hv, trim_valued hw, ← simplify_eq_iff]
  by_cases hnv : v = [] <;> by_cases hnw : w = [] <;> simp [hnv, hnw, simplify_append hblank]

/-- Two lines that declare the same symbol with different values make a modification, but its rows
show the same text where the values differ only in what simple names leave out. Values without a
qualifier are told apart. -/
theorem entry_revalued (s : Simplifier) (hv : trim v = v) (hw : trim w = w) (hne : v ≠ w)
    (hold : Listing.rowOf? display declaringClass (valued d v ++ [';']) = some (id, old))
    (hnew : Listing.rowOf? display declaringClass (valued d w ++ [';']) = some (id, new))
    (hbefore : before.get? id = some old) (hafter : after.get? id = some new) :
    .modification id old new ∈ (Report.between before after).changes ∧
      entry s (.modification id old new) =
        headline s "modified" new ++ "\n\n| From: | ".toList ++ s.simplify old.full ++
          " |\n| To: | ".toList ++ s.simplify new.full ++ " |".toList ∧
      (s.simplify old.full = s.simplify new.full ↔
        v ≠ [] ∧ w ≠ [] ∧ s.simpleNames v = s.simpleNames w) ∧
      (IsSimple v → IsSimple w → s.simplify old.full ≠ s.simplify new.full) := by
  have hofull : old.full = trim (valued d v) := full_of_valued hold
  have hnfull : new.full = trim (valued d w) := full_of_valued hnew
  have hfull : old.full ≠ new.full := by
    rw [hofull, hnfull]
    exact fun h => hne ((trim_valued_inj hv hw).1 h)
  have hempty : (v = [] ↔ w = []) ↔ v ≠ [] ∧ w ≠ [] := by
    constructor
    · intro h
      exact ⟨fun hnil => hne (hnil.trans (h.1 hnil).symm),
        fun hnil => hne ((h.2 hnil).trans hnil.symm)⟩
    · intro h
      simp [h]
  have hrows := simplify_valued_eq_iff s hv hw d
  rw [hempty, and_assoc, ← hofull, ← hnfull] at hrows
  refine ⟨?_, ?_, hrows, ?_⟩
  · apply Report.mem_changes_between.2
    simp [Change.id, hbefore, hafter, Change.ofDefinitions?, hfull]
  · simp [entry, row]
  · intro hvsimple hwsimple h
    have hnames := (hrows.1 h).2.2
    rw [← simplify_eq_iff, simplify_of_isSimple hvsimple, simplify_of_isSimple hwsimple] at hnames
    exact hne hnames

def rateId : SymbolId := ⟨"Gauge", .field, "rate"⟩

def rate (v : Text) : Definition := ⟨valued "double rate" v, "double rate", "field"⟩

theorem entry_revalued_rate :
    let s := Dialect.extended.simplifier
    let before : SymbolTable := OrderedMap.ofList [(rateId, rate "1.5")]
    let after : SymbolTable := OrderedMap.ofList [(rateId, rate "2.25")]
    Listing.rowOf? default "Gauge" (valued "double rate" "1.5" ++ [';']) =
      some (rateId, rate "1.5") ∧
    Listing.rowOf? default "Gauge" (valued "double rate" "2.25" ++ [';']) =
      some (rateId, rate "2.25") ∧
    .modification rateId (rate "1.5") (rate "2.25") ∈ (Report.between before after).changes ∧
    s.simplify (rate "1.5").full ≠ s.simplify (rate "2.25").full := by
  intro s before after
  have hold : Listing.rowOf? default "Gauge" (valued "double rate" "1.5" ++ [';']) =
      some (rateId, rate "1.5") := by decide +kernel
  have hnew : Listing.rowOf? default "Gauge" (valued "double rate" "2.25" ++ [';']) =
      some (rateId, rate "2.25") := by decide +kernel
  have hbefore : before.get? rateId = some (rate "1.5") := by decide +kernel
  have hafter : after.get? rateId = some (rate "2.25") := by decide +kernel
  obtain ⟨hmem, -, hrows, -⟩ := entry_revalued s (v := "1.5".toList) (w := "2.25".toList)
    (by decide) (by decide) (by decide) hold hnew hbefore hafter
  have hnames : s.simpleNames "1.5" ≠ s.simpleNames "2.25" := by decide
  exact ⟨hold, hnew, hmem, fun h => hnames (hrows.1 h).2.2⟩

/-- Of a number only the digits behind its point are shown. -/
theorem rows_eq_of_rates :
    let s := Dialect.extended.simplifier
    Listing.rowOf? default "Gauge" (valued "double rate" "1.5" ++ [';']) =
      some (rateId, rate "1.5") ∧
    Listing.rowOf? default "Gauge" (valued "double rate" "2.5" ++ [';']) =
      some (rateId, rate "2.5") ∧
    entry s (.modification rateId (rate "1.5") (rate "2.5")) =
      ("*modified* field: `double rate`\n\n" ++
        "| From: | double rate = 5 |\n| To: | double rate = 5 |").toList ∧
    s.simplify (rate "1.5").full = s.simplify (rate "2.5").full := by
  refine ⟨?_, ?_, ?_, ?_⟩ <;> decide +kernel

end Markdown
end Surface
