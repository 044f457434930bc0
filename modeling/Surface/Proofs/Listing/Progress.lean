import Surface.Listing

/-! # Progress through a sequence of steps

What each step keeps of the table is kept by a sequence of steps, wherever it stops. A sequence of
steps from some progress on is the same sequence from the table that the progress has reached.
-/

namespace Surface

namespace Progress

variable {α : Type} {I : SymbolTable → Prop}

theorem andThen_preserves {p : Progress} {step : SymbolTable → Progress} (hp : I p.table)
    (hstep : ∀ table, I table → I (step table).table) : I (p.andThen step).table := by
  cases hf : p.failure with
  | some f => rwa [andThen_failed hf]
  | none =>
    simp only [andThen, hf]
    exact hstep p.table hp

theorem foldl_preserves {p : Progress} {step : α → SymbolTable → Progress} {xs : List α}
    (hp : I p.table) (hstep : ∀ x ∈ xs, ∀ table, I table → I (step x table).table) :
    I (xs.foldl (fun q x => q.andThen (step x)) p).table := by
  induction xs generalizing p with
  | nil => exact hp
  | cons x xs ih =>
    rw [List.foldl_cons]
    exact ih (andThen_preserves hp (hstep x List.mem_cons_self))
      fun y hy => hstep y (List.mem_cons_of_mem _ hy)

@[simp] theorem nil_andThen (table : SymbolTable) (step : SymbolTable → Progress) :
    (⟨table, [], none⟩ : Progress).andThen step = step table := rfl

theorem failure_andThen {p : Progress} (h : p.failure = none) (step : SymbolTable → Progress) :
    (p.andThen step).failure = (step p.table).failure := by
  rw [andThen, h]

theorem table_andThen {p : Progress} (h : p.failure = none) (step : SymbolTable → Progress) :
    (p.andThen step).table = (step p.table).table := by
  rw [andThen, h]

theorem failure_andThen_eq_none_iff {p : Progress} {step : SymbolTable → Progress} :
    (p.andThen step).failure = none ↔ p.failure = none ∧ (step p.table).failure = none := by
  cases h : p.failure with
  | some f => simp [h]
  | none => simp [failure_andThen h]

theorem events_andThen {p : Progress} (h : p.failure = none) (step : SymbolTable → Progress) :
    (p.andThen step).events = p.events ++ (step p.table).events := by
  rw [andThen, h]

/-- What each part tells is told by both together, wherever they stop. -/
theorem forall_mem_events_andThen {P : Event → Prop} {p : Progress}
    {step : SymbolTable → Progress} (hp : ∀ e ∈ p.events, P e)
    (hstep : ∀ table, ∀ e ∈ (step table).events, P e) : ∀ e ∈ (p.andThen step).events, P e := by
  cases h : p.failure with
  | some f => rwa [andThen_failed h]
  | none =>
    rw [events_andThen h]
    intro e he
    rcases List.mem_append.1 he with he | he
    · exact hp e he
    · exact hstep _ e he

theorem andThen_nil (p : Progress) : (p.andThen fun table => ⟨table, [], none⟩) = p := by
  obtain ⟨table, events, failure⟩ := p
  cases failure <;> simp [andThen]

theorem failure_emit (p : Progress) (event : Event) : (p.emit event).failure = p.failure := by
  obtain ⟨table, events, failure⟩ := p
  cases failure <;> rfl

theorem table_emit (p : Progress) (event : Event) : (p.emit event).table = p.table := by
  obtain ⟨table, events, failure⟩ := p
  cases failure <;> rfl

/-- Steps that start from what has been reached are the same steps from its table on. -/
theorem foldl_andThen (p : Progress) (step : α → SymbolTable → Progress) (xs : List α) :
    xs.foldl (fun q x => q.andThen (step x)) p =
      p.andThen fun table => xs.foldl (fun q x => q.andThen (step x)) ⟨table, [], none⟩ := by
  induction xs generalizing p with
  | nil => exact (andThen_nil p).symm
  | cons x xs ih =>
    rw [List.foldl_cons, ih, andThen_assoc]
    congr 1
    funext table
    rw [List.foldl_cons, nil_andThen, ih (step x table)]

/-- One step for each element, as long as none fails. -/
def steps (step : α → SymbolTable → Progress) (xs : List α) (table : SymbolTable) : Progress :=
  xs.foldl (fun q x => q.andThen (step x)) ⟨table, [], none⟩

theorem steps_cons (step : α → SymbolTable → Progress) (x : α) (xs : List α)
    (table : SymbolTable) :
    steps step (x :: xs) table = (step x table).andThen (steps step xs) := by
  rw [steps, List.foldl_cons, nil_andThen, foldl_andThen]
  rfl

theorem forall_mem_events_steps {P : Event → Prop} {step : α → SymbolTable → Progress}
    (hstep : ∀ x table, ∀ e ∈ (step x table).events, P e) (xs : List α) (table : SymbolTable) :
    ∀ e ∈ (steps step xs table).events, P e := by
  induction xs generalizing table with
  | nil => exact fun e he => by cases he
  | cons x xs ih =>
    rw [steps_cons]
    exact forall_mem_events_andThen (hstep x table) ih

/-- A sequence of steps fails with the first step that fails, whatever comes behind it. -/
theorem failure_steps_eq_some_iff {step : α → SymbolTable → Progress} {xs : List α}
    {table : SymbolTable} {f : Failure} : (steps step xs table).failure = some f ↔
      ∃ front x behind, xs = front ++ x :: behind ∧ (steps step front table).failure = none ∧
        (step x (steps step front table).table).failure = some f := by
  induction xs generalizing table with
  | nil => simp [steps]
  | cons x xs ih =>
    rw [steps_cons]
    cases h : (step x table).failure with
    | some g =>
      rw [andThen_failed h, h]
      constructor
      · intro hg
        exact ⟨[], x, xs, rfl, rfl, h.trans hg⟩
      · rintro ⟨front, y, behind, hxs, hfine, hy⟩
        cases front with
        | nil =>
          cases hxs
          exact h.symm.trans hy
        | cons z front =>
          cases hxs
          rw [steps_cons, andThen_failed h, h] at hfine
          cases hfine
    | none =>
      rw [failure_andThen h, ih]
      constructor
      · rintro ⟨front, y, behind, rfl, hfine, hy⟩
        refine ⟨x :: front, y, behind, rfl, ?_⟩
        rw [steps_cons, failure_andThen h, table_andThen h]
        exact ⟨hfine, hy⟩
      · rintro ⟨front, y, behind, hxs, hfine, hy⟩
        cases front with
        | nil =>
          cases hxs
          exact absurd (h.symm.trans hy) (by simp)
        | cons z front =>
          cases hxs
          rw [steps_cons, failure_andThen h] at hfine
          rw [steps_cons, table_andThen h] at hy
          exact ⟨front, y, behind, rfl, hfine, hy⟩

end Progress

end Surface
