import Mathlib.Data.List.Basic
import Surface.Proofs.Declaration.Grammar

/-! # What stands around a declaration

Blanks, the modifiers in front and an initializer behind do not change the declarator, as long as a
word that is no modifier stands in front of the initializer. Where only modifiers stand there, the
gap before `=` is dropped together with them, so the initializer is not cut off and is read as a
declaration itself.
-/

namespace Surface.Declaration

open Text

variable {before run d t gap rest : Text}

/-- With a blank behind it, the text is a run of modifiers, perhaps behind blanks. -/
def OnlyModifiers (d : Text) : Prop :=
  ∃ before run, IsBlanks before ∧ ModifierRun run ∧ d ++ [' '] = before ++ run

theorem onlyModifiers_iff : OnlyModifiers d ↔ stripModifiers (d ++ [' ']) = [] := by
  constructor
  · rintro ⟨before, run, hbefore, hrun, heq⟩
    have hstrip := hrun.stripModifiers []
    rw [List.append_nil] at hstrip
    rw [heq, stripModifiers_blanks hbefore, hstrip]
    rfl
  · intro hnil
    obtain ⟨before, hbefore, run, hrun, heq, -⟩ := exists_run_stripModifiers (d ++ [' '])
    rw [hnil, List.append_nil] at heq
    exact ⟨before, run, hbefore, hrun, heq⟩

instance (d : Text) : Decidable (OnlyModifiers d) := decidable_of_iff' _ onlyModifiers_iff

/-- Behind the modifiers of a text stands a word that is none, unless nothing else is there. -/
theorem exists_declaration (hd : ¬ OnlyModifiers d) :
    ∃ before run t, IsBlanks before ∧ ModifierRun run ∧ d = before ++ run ++ t ∧
      SolidAhead t ∧ t ≠ [] ∧ leadingWord t ∉ modifiers := by
  have hblank : BlankAhead [' '] := by decide
  obtain ⟨before, hbefore, run, hrun, heq, hahead, hno⟩ := exists_run_stripModifiers (d ++ [' '])
  have hne : stripModifiers (d ++ [' ']) ≠ [] := fun hnil => hd (onlyModifiers_iff.2 hnil)
  obtain ⟨t, c, hlast⟩ := (List.eq_nil_or_concat' (stripModifiers (d ++ [' ']))).resolve_left hne
  rw [hlast, ← List.append_assoc] at heq
  obtain ⟨hdecl, hc⟩ := List.append_inj' heq rfl
  rw [hlast, ← hc] at hahead hno
  have htne : t ≠ [] := by
    rintro rfl
    have hsolid := hahead ' ' rfl
    revert hsolid
    decide
  refine ⟨before, run, t, hbefore, hrun, hdecl, ?_, htne, fun hmem => hno ?_⟩
  · cases t with
    | nil => exact absurd rfl htne
    | cons c t => exact hahead
  · rw [startsWithModifier_iff, leadingWord_append_blank t hblank]
    refine ⟨hmem, fun hnil => ?_⟩
    have hwhole := leadingWord_append_afterLeadingWord (t ++ [' '])
    rw [hnil, List.append_nil] at hwhole
    have hsolid := isSolid_leadingWord (t ++ [' '])
    rw [hwhole, isSolid_append] at hsolid
    exact absurd (hsolid.2 ' ' List.mem_cons_self) (by decide)

/-- The declarator behind a run of modifiers is that of the text behind them. -/
theorem declarator_run (hbefore : IsBlanks before) (hrun : ModifierRun run) (ht : SolidAhead t)
    (hne : t ≠ []) :
    declarator (before ++ run ++ t) = dropInitializer (stripModifiers (trimEnd t)) := by
  have htrim : trim (before ++ run ++ t) = run ++ trimEnd t := by
    obtain ⟨g, hg, heq⟩ := exists_trimEnd_blanks t
    have hend := (solidBehind_trimEnd t).append run (trimEnd_ne_nil ht hne)
    have hstart : SolidAhead (run ++ t) := hrun.solidAhead_append ht
    rw [trim, List.append_assoc, trimStart_append hbefore, trimStart_of_solidAhead hstart]
    calc trimEnd (run ++ t) = trimEnd (run ++ trimEnd t ++ g) := by rw [List.append_assoc, ← heq]
      _ = trimEnd (run ++ trimEnd t) := trimEnd_append _ hg
      _ = run ++ trimEnd t := trimEnd_of_solidBehind hend
  rw [declarator, htrim, hrun.stripModifiers]

theorem not_onlyModifiers (hbefore : IsBlanks before) (hrun : ModifierRun run)
    (ht : SolidAhead t) (hne : t ≠ []) (hm : leadingWord t ∉ modifiers) :
    ¬ OnlyModifiers (before ++ run ++ t) := by
  have hblank : IsBlanks [' '] := by decide
  have hno : ¬ StartsWithModifier (t ++ [' ']) := by
    rw [startsWithModifier_iff, leadingWord_append_blank t hblank.ahead]
    exact fun h => hm h.1
  rw [onlyModifiers_iff, List.append_assoc, List.append_assoc, stripModifiers_blanks hbefore,
    hrun.stripModifiers, stripModifiers_of_noModifier (ht.append hne) hno]
  simp

theorem declarator_run_eq (hbefore : IsBlanks before) (hrun : ModifierRun run) (ht : SolidAhead t)
    (hne : t ≠ []) : declarator (before ++ run ++ t) = declarator t := by
  have hself := @declarator_run [] [] t (fun c hc => by cases hc) .nil ht hne
  rw [declarator_run hbefore hrun ht hne]
  exact hself.symm

/-- Behind the modifiers only an initializer and trailing blanks are left out. -/
theorem declarator_of_notMem_modifiers (hbefore : IsBlanks before) (hrun : ModifierRun run)
    (ht : SolidAhead t) (hne : t ≠ []) (hm : leadingWord t ∉ modifiers) :
    declarator (before ++ run ++ t) = dropInitializer (trimEnd t) := by
  have hahead : SolidAhead (trimEnd t) := by
    obtain ⟨g, -, heq⟩ := exists_trimEnd_blanks t
    cases hend : trimEnd t with
    | nil => exact absurd hend (trimEnd_ne_nil ht hne)
    | cons c s =>
      rw [heq, hend] at ht
      exact ht
  have hno : ¬ StartsWithModifier (trimEnd t) := by
    rw [startsWithModifier_iff, leadingWord_trimEnd]
    exact fun h => hm h.1
  rw [declarator_run hbefore hrun ht hne, stripModifiers_of_noModifier hahead hno]

/-- An initializer is cut off where a word that is no modifier stands in front of it. -/
theorem declarator_initializer (hd : ¬ OnlyModifiers d) (hgapne : gap ≠ []) (hgap : IsBlanks gap)
    (hrest : BlankAhead rest) : declarator (d ++ gap ++ '=' :: rest) = declarator d := by
  obtain ⟨before, run, t, hbefore, hrun, rfl, ht, hne, hm⟩ := exists_declaration hd
  obtain ⟨g, hg, heq⟩ := exists_trimEnd_blanks t
  have hword : leadingWord (t ++ (gap ++ '=' :: rest)) = leadingWord t :=
    leadingWord_append_blank t (hgap.ahead_append hgapne _)
  have hend : trimEnd (t ++ (gap ++ '=' :: rest)) =
      trimEnd t ++ (g ++ gap) ++ '=' :: trimEnd rest := by
    have hsolid : SolidBehind (t ++ gap ++ ['=']) :=
      isSolid_equals.behind.append _ (List.cons_ne_nil _ _)
    have htrim := trimEnd_append_of_solidBehind hsolid rest
    calc trimEnd (t ++ (gap ++ '=' :: rest)) = trimEnd (t ++ gap ++ ['='] ++ rest) := by simp
      _ = t ++ gap ++ ['='] ++ trimEnd rest := htrim
      _ = trimEnd t ++ g ++ gap ++ ['='] ++ trimEnd rest := by rw [← heq]
      _ = trimEnd t ++ (g ++ gap) ++ '=' :: trimEnd rest := by simp
  have hwhole : before ++ run ++ t ++ gap ++ '=' :: rest =
      before ++ run ++ (t ++ (gap ++ '=' :: rest)) := by simp
  rw [hwhole, declarator_of_notMem_modifiers hbefore hrun (ht.append hne) (by simp [hne])
    (hword ▸ hm), declarator_of_notMem_modifiers hbefore hrun ht hne hm, hend]
  exact dropInitializer_append (solidBehind_trimEnd t) (by simp [hgapne])
    (isBlanks_append.2 ⟨hg, hgap⟩) hrest.trimEnd

/-- Behind modifiers alone a word `=` begins the declarator. -/
theorem declarator_onlyModifiers_append (hd : OnlyModifiers d) (rest : Text) :
    declarator (d ++ [' '] ++ '=' :: rest) = declarator ('=' :: rest) := by
  obtain ⟨before, run, hbefore, hrun, heq⟩ := hd
  rw [heq]
  exact declarator_run_eq hbefore hrun (solidAhead_equals rest) (List.cons_ne_nil _ _)

theorem SignatureAt.open_mem {b front signature : Text} (h : SignatureAt b front signature) :
    '(' ∈ b := by
  obtain ⟨rest, rfl, hsignature⟩ := h.parts
  obtain ⟨c, name, parameters, rfl, -⟩ := hsignature.parts
  simp

theorem not_declares_of_isSolid {b signature : Text} {kind : Kind} (hb : IsSolid b)
    (hopen : '(' ∉ b) : ¬ Declares b kind signature := by
  intro h
  cases h with
  | type htype =>
    obtain ⟨keyword, -, gap, rest, rfl, hne, hgap, -⟩ := htype
    simp only [isSolid_append] at hb
    exact hne (hgap.ahead.eq_nil hb.1.1.2.ahead)
  | method _ hmethod =>
    obtain ⟨front, hat⟩ := hmethod
    exact hopen hat.signatureAt.open_mem
  | constructor _ _ hconstructor => exact hopen hconstructor.open_mem
  | field _ _ _ hfield =>
    obtain ⟨front, hne, rfl, hbehind, -⟩ := hfield
    exact hne (hbehind.eq_nil (isSolid_append.1 hb).1.behind)

theorem open_notMem_of_mem_modifiers {m : Text} (h : m ∈ modifiers) : '(' ∉ m := by
  have hall : ∀ m ∈ modifiers, '(' ∉ m := by decide
  exact hall m h

/-- Of nothing but modifiers the last one is kept, because no gap of the text itself follows it. -/
theorem declarator_onlyModifiers (hd : OnlyModifiers d) :
    IsSolid (declarator d) ∧ '(' ∉ declarator d := by
  obtain ⟨before, run, hbefore, hrun, heq⟩ := hd
  by_cases hnil : run = []
  · rw [hnil, List.append_nil] at heq
    rw [← heq, isBlanks_append] at hbefore
    have htrim := trim_append_blanks [] hbefore.1
    have hempty : declarator d = [] := by
      rw [declarator, ← List.nil_append d, htrim]
      rfl
    rw [hempty]
    constructor
    · intro c hc
      cases hc
    · exact List.not_mem_nil
  · obtain ⟨front, m, gap, hfront, hm, hne, hgap, rfl⟩ := hrun.exists_last hnil
    obtain ⟨g, c, rfl⟩ := (List.eq_nil_or_concat' gap).resolve_left hne
    have hparts : d ++ [' '] = before ++ front ++ (m ++ g) ++ [c] := by simpa using heq
    obtain ⟨rfl, -⟩ := List.append_inj' hparts rfl
    have hsolid := isSolid_of_mem_modifiers hm
    have hmne := ne_nil_of_mem_modifiers hm
    have htrim : trimEnd (m ++ g) = m := by
      rw [trimEnd_append m (isBlanks_append.1 hgap).1, trimEnd_of_solidBehind hsolid.behind]
    have hno : ¬ StartsWithModifier m := by
      have hafter := afterLeadingWord_append hsolid (t := []) (fun c hc => by cases hc)
      rw [List.append_nil] at hafter
      rw [startsWithModifier_iff]
      exact fun h => h.2 hafter
    have hahead : SolidAhead (m ++ g) := hsolid.ahead.append hmne
    have hdecl : declarator (before ++ front ++ (m ++ g)) = dropInitializer m := by
      rw [declarator_run hbefore hfront hahead (by simp [hmne]), htrim,
        stripModifiers_of_noModifier hsolid.ahead hno]
    have hsub := (dropInitializer_isPrefix m).subset
    rw [hdecl]
    exact ⟨fun x hx => hsolid x (hsub hx), fun hx => open_notMem_of_mem_modifiers hm (hsub hx)⟩

theorem classify_onlyModifiers (policy : DisplayPolicy) (hd : OnlyModifiers d)
    (c : Classification) : classify policy d ≠ .ok c := by
  intro h
  obtain ⟨hsolid, hopen⟩ := declarator_onlyModifiers hd
  exact not_declares_of_isSolid hsolid hopen
    ((declares_iff (solidBehind_declarator d) policy).2 ⟨c, classify_eq_ok_iff.1 h, rfl, rfl⟩)

/-- A line with a value behind `=` declares what it declares without the value, if more than
modifiers stands in front. Modifiers alone declare nothing, and behind them the value is read. -/
theorem classify_initializer (policy : DisplayPolicy) (d v : Text) :
    (¬ OnlyModifiers d → ∀ c, classify policy (d ++ " = ".toList ++ v) = .ok c ↔
      classify policy d = .ok c) ∧
    (OnlyModifiers d → (∀ c, classify policy d ≠ .ok c) ∧
      ∀ c, classify policy (d ++ " = ".toList ++ v) = .ok c ↔
        classify policy ("= ".toList ++ v) = .ok c) := by
  have hline : d ++ " = ".toList ++ v = d ++ [' '] ++ '=' :: (' ' :: v) := by simp
  have hspace : IsBlanks [' '] := by decide
  have hblank : BlankAhead (' ' :: v) := hspace.ahead_append (List.cons_ne_nil _ _) v
  constructor
  · intro hd c
    rw [classify_eq_ok_iff, classify_eq_ok_iff, hline,
      declarator_initializer hd (List.cons_ne_nil _ _) (by decide) hblank]
  · intro hd
    refine ⟨classify_onlyModifiers policy hd, fun c => ?_⟩
    rw [classify_eq_ok_iff, classify_eq_ok_iff, hline, declarator_onlyModifiers_append hd]
    rfl

/-- The value behind modifiers alone is taken for the name of a field. -/
theorem classify_value_behind_modifiers :
    (∀ c, classify default "public static final".toList ≠ .ok c) ∧
    classify default ("public static final".toList ++ " = ".toList ++ "5".toList) =
      .ok ⟨.field, "5".toList, "= 5".toList, "field".toList⟩ := by
  constructor
  · exact classify_onlyModifiers default (by decide +kernel)
  · exact classify_eq_ok_iff.2 (by decide +kernel)

end Surface.Declaration
