import Surface.Proofs.Declaration.Shape
import Surface.Proofs.Listing.Reached

/-! # Entries that describe themselves

In a table that listings have been read into, with one display policy for all of them, the full
declaration of an entry says all that the entry says: it is classified with the kind, the signature
and the display that it is filed under. This holds whatever else has been read and wherever reading
has failed, since each line defines or replaces whole entries only.
-/

namespace Surface

open Text

/-- An entry that is read off its full declaration, as the one display policy has it. -/
structure SelfDescribing (display : DisplayPolicy) (id : SymbolId) (d : Definition) : Prop where
  full_ne_nil : d.full ≠ []
  trimmed : trim d.full = d.full
  oneLine : '\n' ∉ d.full
  classify_full : Declaration.classify display d.full =
    .ok ⟨id.kind, id.signature, d.short, d.label⟩
  signature_ne_nil : id.signature ≠ []
  signature_isInfix : id.signature <:+: d.full
  signature_isSuffix : id.signature <:+ d.short
  admits : id.kind.Admits id.signature
  isWord_class : IsWord id.declaringClass

namespace Declared

variable {display : DisplayPolicy} {id : SymbolId} {d : Definition}

theorem declares (h : Declared display id d) :
    Declaration.Declares (Declaration.declarator d.full) id.kind id.signature :=
  (Declaration.declares_iff (Declaration.solidBehind_declarator d.full) display).2
    ⟨_, h.classified, rfl, rfl⟩

theorem signature_isInfix (h : Declared display id d) : id.signature <:+: d.full :=
  h.declares.isInfix.trans (Declaration.declarator_isInfix d.full)

theorem selfDescribing (h : Declared display id d) (hclass : IsWord id.declaringClass) :
    SelfDescribing display id d where
  full_ne_nil hnil := by
    have hinfix := h.signature_isInfix
    rw [hnil, List.infix_nil] at hinfix
    exact h.declares.admits.ne_nil hinfix
  trimmed := h.trimmed
  oneLine := h.oneLine
  classify_full := Declaration.classify_eq_ok_iff.2 h.classified
  signature_ne_nil := h.declares.admits.ne_nil
  signature_isInfix := h.signature_isInfix
  signature_isSuffix :=
    Declaration.signature_suffix_short (Declaration.solidBehind_declarator d.full) h.classified
  admits := h.declares.admits
  isWord_class := hclass

end Declared

/-- A class is named by the signature of its type, which is in the table. -/
theorem Reached.isWord_declaringClass {allowed : ReadOptions → Prop} {table : SymbolTable}
    (h : Reached allowed table) {id : SymbolId} (hid : table.contains id = true) :
    IsWord id.declaringClass := by
  obtain ⟨options, d, -, hdeclared⟩ := h.declared_ofClass hid
  exact hdeclared.declares.admits

/-- Whatever listings have been read under one display policy, and wherever reading has failed, each
entry of the table describes itself. -/
theorem ReachedUnder.selfDescribing_of_get? {display : DisplayPolicy} {table : SymbolTable}
    (h : ReachedUnder display table) {id : SymbolId} {d : Definition}
    (hget : table.get? id = some d) : SelfDescribing display id d :=
  (ReachedUnder.declared h hget).selfDescribing
    (h.isWord_declaringClass (Option.isSome_of_eq_some hget))

def sealListing : Listing where
  source := "Seal".toList
  text := ("interface a.Seal extends java.lang.annotation.Annotation \x7b\n" ++
    "  public int depth( int );\r\n  depth;\n\x7d").toList

def sealType : Definition where
  full := "interface a.Seal extends java.lang.annotation.Annotation".toList
  short := "@a.Seal".toList
  label := "annotation".toList

def sealDepth : Definition where
  full := "public int depth( int )".toList
  short := "int depth( int )".toList
  label := "method".toList

theorem selfDescribing_seal :
    let table := (sealListing.read ⟨default, .fail⟩ ∅).table
    let depth : SymbolId := ⟨"a.Seal".toList, .method, "depth( int )".toList⟩
    (sealListing.read ⟨default, .fail⟩ ∅).failure ≠ none ∧ ReachedUnder default table ∧
    table.get? (.ofClass "a.Seal".toList) = some sealType ∧
    SelfDescribing default (.ofClass "a.Seal".toList) sealType ∧
    table.get? depth = some sealDepth ∧ SelfDescribing default depth sealDepth := by
  intro table depth
  have hreached : ReachedUnder default table := .read sealListing rfl .empty
  obtain ⟨hfailure, htype, hdepth⟩ : (sealListing.read ⟨default, .fail⟩ ∅).failure ≠ none ∧
      table.get? (.ofClass "a.Seal".toList) = some sealType ∧
      table.get? depth = some sealDepth := by decide +kernel
  exact ⟨hfailure, hreached, htype, hreached.selfDescribing_of_get? htype, hdepth,
    hreached.selfDescribing_of_get? hdepth⟩

end Surface
