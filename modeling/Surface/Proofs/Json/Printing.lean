import Surface.Proofs.Json.Grammar

/-! # What the printer writes

The printer puts every item and every member on a line of its own, and so writes each value in one
of its forms. What it prints is a document with the value.
-/

namespace Surface.Json

/-- A property of all values, proved for a list from the values in it. -/
theorem inductionOn {P : Json → Prop} (number : ∀ n, P (.number n)) (text : ∀ t, P (.text t))
    (array : ∀ items, (∀ v ∈ items, P v) → P (.array items))
    (object : ∀ members, (∀ m ∈ members, P m.2) → P (.object members)) : ∀ v, P v
  | .number n => number n
  | .text t => text t
  | .array items => array items fun v _ => inductionOn number text array object v
  | .object members => object members fun m _ => inductionOn number text array object m.2
decreasing_by
  · have hlt := List.sizeOf_lt_of_mem ‹v ∈ items›
    rw [Json.array.sizeOf_spec]
    omega
  · have hlt := List.sizeOf_lt_of_mem ‹m ∈ members›
    obtain ⟨name, v⟩ := m
    rw [Json.object.sizeOf_spec]
    rw [Prod.mk.sizeOf_spec] at hlt
    dsimp only
    omega

theorem IsSpaces.nil : IsSpaces [] := fun _ h => by cases h

theorem IsSpaces.append {w w' : Text} (h : IsSpaces w) (h' : IsSpaces w') : IsSpaces (w ++ w') :=
  fun c hc => (List.mem_append.1 hc).elim (h c) (h' c)

theorem isSpaces_newLine (depth : Nat) : IsSpaces (newLine depth) := by
  intro c hc
  rcases List.mem_cons.1 hc with rfl | hc
  · rfl
  · rw [List.eq_of_mem_replicate hc]
    rfl

theorem Further.append {ws : List Text} {w gap : Text} (h : Further ws w) (hws : ws ≠ [])
    (hgap : IsSpaces gap) : Further ws (w ++ gap) := by
  induction h with
  | nil => exact absurd rfl hws
  | @cons ws w before behind more hbefore hbehind hmore ih =>
    cases ws with
    | nil =>
      cases hmore
      have h := Further.cons hbefore (hbehind.append hgap) (w := w) .nil
      simpa only [List.append_nil, List.append_assoc] using h
    | cons w' ws =>
      have h := Further.cons hbefore hbehind (ih (List.cons_ne_nil w' ws)) (w := w)
      simpa only [List.append_assoc] using h

/-- Blanks behind a list belong to its last text. -/
theorem Listed.append {ws : List Text} {w gap : Text} (h : Listed ws w) (hgap : IsSpaces gap) :
    Listed ws (w ++ gap) := by
  cases h with
  | nil h => exact .nil (h.append hgap)
  | @cons ws w before behind more hbefore hbehind hmore =>
    cases ws with
    | nil =>
      cases hmore
      have h := Listed.cons hbefore (hbehind.append hgap) (w := w) .nil
      simpa only [List.append_nil, List.append_assoc] using h
    | cons w' ws =>
      have h := Listed.cons hbefore hbehind (hmore.append (List.cons_ne_nil w' ws) hgap) (w := w)
      simpa only [List.append_assoc] using h

theorem further_prettyItems (depth : Nat) (items : List Json) :
    Further (items.map (pretty depth)) (prettyItems depth items) := by
  induction items with
  | nil => exact .nil
  | cons v items ih =>
    have h := Further.cons (isSpaces_newLine depth) .nil ih (w := pretty depth v)
    rwa [List.append_nil] at h

theorem listed_prettyItems (depth : Nat) (v : Json) (items : List Json) :
    Listed ((v :: items).map (pretty depth))
      (newLine depth ++ (pretty depth v ++ prettyItems depth items)) := by
  have h := Listed.cons (isSpaces_newLine depth) .nil (further_prettyItems depth items)
    (w := pretty depth v)
  rwa [List.append_nil] at h

/-- A member as the printer writes it. -/
def prettyMember (depth : Nat) (m : Text × Json) : Member where
  name := m.1
  value := m.2
  key := quote m.1
  before := []
  behind := [' ']
  written := pretty depth m.2

theorem named_prettyMember (depth : Nat) (m : Text × Json) : (prettyMember depth m).Named where
  quotes := quotes_quote m.1
  before := .nil
  behind c hc := by
    rw [List.mem_singleton.1 hc]
    rfl

theorem text_prettyMember (depth : Nat) (m : Text × Json) :
    (prettyMember depth m).text = quote m.1 ++ ": ".toList ++ pretty depth m.2 := by
  simp [prettyMember, Member.text]

theorem further_prettyMembers (depth : Nat) (members : List (Text × Json)) :
    Further (members.map fun m => (prettyMember depth m).text) (prettyMembers depth members) := by
  induction members with
  | nil => exact .nil
  | cons m members ih =>
    have h := Further.cons (isSpaces_newLine depth) .nil ih (w := (prettyMember depth m).text)
    rw [text_prettyMember, List.append_nil] at h
    rw [List.map_cons, text_prettyMember, prettyMembers]
    simpa only [List.append_assoc] using h

theorem listed_prettyMembers (depth : Nat) (m : Text × Json) (members : List (Text × Json)) :
    Listed ((m :: members).map fun m => (prettyMember depth m).text)
      (newLine depth ++ ((prettyMember depth m).text ++ prettyMembers depth members)) := by
  have h := Listed.cons (isSpaces_newLine depth) .nil (further_prettyMembers depth members)
    (w := (prettyMember depth m).text)
  rwa [List.append_nil] at h

theorem Writes.array_map {items : List Json} {written : Json → Text} {w : Text}
    (hitems : ∀ v ∈ items, Writes v (written v)) (hw : Listed (items.map written) w) :
    Writes (.array items) ('[' :: w ++ [']']) := by
  have h : Writes (.array ((items.map fun v => (v, written v)).map Prod.fst))
      ('[' :: w ++ [']']) := by
    refine .array ?_ (by rwa [List.map_map])
    rwa [List.forall_mem_map]
  rwa [List.map_map, List.map_id''] at h
  exact fun _ => rfl

theorem Writes.object_map {members : List (Text × Json)} {depth : Nat} {w : Text}
    (hmembers : ∀ m ∈ members, Writes m.2 (pretty depth m.2))
    (hw : Listed (members.map fun m => (prettyMember depth m).text) w) :
    Writes (.object members) ('{' :: w ++ ['}']) := by
  have h : Writes (.object ((members.map (prettyMember depth)).map Member.entry))
      ('{' :: w ++ ['}']) := by
    refine .object ?_ ?_ (by rwa [List.map_map])
    · rw [List.forall_mem_map]
      exact fun m _ => named_prettyMember depth m
    · rwa [List.forall_mem_map]
  rwa [List.map_map, List.map_id''] at h
  exact fun _ => rfl

theorem writes_pretty (v : Json) (depth : Nat) : Writes v (pretty depth v) := by
  induction v using inductionOn generalizing depth with
  | number n =>
    rw [pretty]
    exact .number n
  | text t =>
    rw [pretty]
    exact .text (quotes_quote t)
  | array items ih =>
    cases items with
    | nil =>
      rw [pretty]
      have hlisted : Listed (([] : List Json).map (pretty depth)) [] := .nil .nil
      exact .array_map (fun v hv => ih v hv depth) hlisted
    | cons v items =>
      have hlisted := (listed_prettyItems (depth + 1) v items).append (isSpaces_newLine depth)
      have h := Writes.array_map (fun v hv => ih v hv (depth + 1)) hlisted
      rw [pretty]
      simpa only [List.append_assoc, List.cons_append] using h
  | object members ih =>
    cases members with
    | nil =>
      rw [pretty]
      have hlisted : Listed (([] : List (Text × Json)).map fun m => (prettyMember depth m).text)
        [] := .nil .nil
      exact .object_map (fun m hm => ih m hm depth) hlisted
    | cons m members =>
      have hlisted := (listed_prettyMembers (depth + 1) m members).append (isSpaces_newLine depth)
      have h := Writes.object_map (fun m hm => ih m hm (depth + 1)) hlisted
      rw [text_prettyMember] at h
      rw [pretty]
      simpa only [List.append_assoc, List.cons_append] using h

theorem document_print (v : Json) : Document v v.print :=
  .intro .nil (writes_pretty v 0) (isSpaces_newLine 0)

end Surface.Json
