import Mathlib.Logic.Basic

/-! Finite runs of a partial step function, and the rules for proving facts about every run. -/

namespace Transition

variable {State Label : Type*} {step : State → Label → Option State}

/-- Take the labelled steps one after another, stopping when one is not enabled. -/
def run (step : State → Label → Option State) : State → List Label → Option State
  -- The empty run stays where it is, and a longer one continues from its first step's target.
  | s, [] => some s
  | s, label :: rest => (step s label).bind fun next => run step next rest

/-- Every step that the run takes is taken in a state that meets the guard for its label. -/
def Along (step : State → Label → Option State) (guard : State → Label → Prop) :
    State → List Label → Prop
  -- A step that is not enabled ends the run, so nothing is asked of it or of the labels behind it.
  | _, [] => True
  | s, label :: rest =>
    match step s label with
    | some next => guard s label ∧ Along step guard next rest
    | none => True

/-- Every state of the run, the first and the last one included, has the property. -/
def Visits (step : State → Label → Option State) (holds : State → Prop) :
    State → List Label → Prop
  | s, [] => holds s
  | s, label :: rest => holds s ∧
      match step s label with
      | some next => Visits step holds next rest
      | none => True

/-- A guard that can be decided can be decided along a whole run. -/
instance Along.decidable (guard : State → Label → Prop) [∀ s label, Decidable (guard s label)] :
    ∀ (s : State) (labels : List Label), Decidable (Along step guard s labels)
  | _, [] => isTrue trivial
  | s, label :: rest =>
    match enabled : step s label with
    | some next =>
      have := Along.decidable guard next rest
      decidable_of_iff (guard s label ∧ Along step guard next rest) (by simp [Along, enabled])
    | none => isTrue (by simp [Along, enabled])

/-- The empty run ends where it starts. -/
@[simp] theorem run_nil (s : State) : run step s [] = some s := rfl

/-- A run of one more label is its first step followed by the rest. -/
theorem run_cons_eq_some {s last : State} {label : Label} {rest : List Label} :
    run step s (label :: rest) = some last ↔
      ∃ next, step s label = some next ∧ run step next rest = some last := by
  -- The first step must be enabled before the rest of the run can start.
  simp [run, Option.bind_eq_some_iff]

/-- A run over joined label lists passes through the end of the first one. -/
theorem run_append_eq_some {s last : State} {first second : List Label} :
    run step s (first ++ second) = some last ↔
      ∃ middle, run step s first = some middle ∧ run step middle second = some last := by
  -- The induction peels the first list, whose end is the only place the second can start.
  induction first generalizing s with
  | nil => simp
  | cons label rest ih =>
    simp only [List.cons_append, run_cons_eq_some, ih]
    constructor
    · intro ran
      obtain ⟨next, taken, middle, before, after⟩ := ran
      exact ⟨middle, ⟨next, taken, before⟩, after⟩
    · intro ran
      obtain ⟨middle, ⟨next, taken, before⟩, after⟩ := ran
      exact ⟨next, taken, middle, before, after⟩

/-- A guard holding along a run holds where its first step is taken, and along the rest. -/
theorem Along.cons {guard : State → Label → Prop} {s next : State} {label : Label}
    {rest : List Label} (along : Along step guard s (label :: rest))
    (taken : step s label = some next) : guard s label ∧ Along step guard next rest := by
  simpa only [Along, taken] using along

/-- A guard holding along a run holds along what follows each of its states. -/
theorem Along.rest {guard : State → Label → Prop} {s middle : State}
    {first second : List Label} (along : Along step guard s (first ++ second))
    (ran : run step s first = some middle) : Along step guard middle second := by
  -- Walk to the state in question, keeping the guard for the labels still ahead.
  induction first generalizing s with
  | nil =>
    simp only [run_nil, Option.some.injEq] at ran
    exact ran ▸ along
  | cons head rest ih =>
    obtain ⟨next, taken, ran⟩ := run_cons_eq_some.mp ran
    exact ih (along.cons taken).2 ran

/-- A guard holding along a run holds along each prefix of it. -/
theorem Along.initial {guard : State → Label → Prop} {s : State} {first second : List Label}
    (along : Along step guard s (first ++ second)) : Along step guard s first := by
  -- The labels behind the prefix are simply not looked at.
  induction first generalizing s with
  | nil => trivial
  | cons head rest ih =>
    cases taken : step s head with
    | none => simp only [Along, taken]
    | some next =>
      obtain ⟨met, along⟩ := along.cons taken
      simp only [Along, taken]
      exact ⟨met, ih along⟩

/-- What every guarded step preserves holds in every state of a guarded run. -/
theorem visits_of_invariant {guard : State → Label → Prop} (Inv : State → Prop)
    (preserved : ∀ s label next, Inv s → guard s label → step s label = some next → Inv next)
    {s : State} {labels : List Label} (start : Inv s) (along : Along step guard s labels) :
    Visits step Inv s labels := by
  -- Each label moves the invariant one state forward.
  induction labels generalizing s with
  | nil => exact start
  | cons label rest ih =>
    refine ⟨start, ?_⟩
    cases taken : step s label with
    | none => trivial
    | some next =>
      obtain ⟨met, along⟩ := along.cons taken
      exact ih (preserved s label next start met taken) along

/-- A property that exactly the guarded steps keep holds in every state of exactly the guarded runs. -/
theorem visits_iff_along {holds : State → Prop} {guard : State → Label → Prop}
    (kept : ∀ s label next, step s label = some next → holds s → (holds next ↔ guard s label))
    {s : State} {labels : List Label} (start : holds s) :
    Visits step holds s labels ↔ Along step guard s labels := by
  -- Up to the first step that does not meet the guard, the property holds.
  induction labels generalizing s with
  | nil => exact iff_of_true start trivial
  | cons label rest ih =>
    rw [Visits, and_iff_right start]
    cases taken : step s label with
    | none => simp only [Along, taken]
    | some next =>
      simp only [Along, taken]
      rw [← kept s label next taken start]
      constructor
      · intro visits
        have after : holds next := by
          cases rest with
          | nil => exact visits
          | cons other others => exact visits.1
        exact ⟨after, (ih after).mp visits⟩
      · exact fun along => (ih along.1).mpr along.2

/-- A property of every state of a run is one of its first state. -/
theorem Visits.first {holds : State → Prop} {s : State} {labels : List Label}
    (visits : Visits step holds s labels) : holds s := by
  cases labels with
  | nil => exact visits
  | cons label rest => exact visits.1

/-- A property of every state of a run is one of its last state. -/
theorem Visits.last {holds : State → Prop} {s last : State} {labels : List Label}
    (visits : Visits step holds s labels) (ran : run step s labels = some last) : holds last := by
  -- Follow the run to its end.
  induction labels generalizing s with
  | nil =>
    simp only [run_nil, Option.some.injEq] at ran
    exact ran ▸ visits
  | cons label rest ih =>
    obtain ⟨next, taken, ran⟩ := run_cons_eq_some.mp ran
    have later := visits.2
    simp only [taken] at later
    exact ih later ran

/-- A weaker property holds in every state as well. -/
theorem Visits.mono {strong weak : State → Prop} (weaken : ∀ s, strong s → weak s) {s : State}
    {labels : List Label} (visits : Visits step strong s labels) : Visits step weak s labels := by
  induction labels generalizing s with
  | nil => exact weaken s visits
  | cons label rest ih =>
    refine ⟨weaken s visits.1, ?_⟩
    have later := visits.2
    -- A step that is not taken ends the run, and nothing is visited after it.
    cases taken : step s label with
    | none => trivial
    | some next =>
      simp only [taken] at later
      exact ih later

/-- When every step against the guard breaks the property, a run that keeps it meets the guard. -/
theorem Visits.along {holds : State → Prop} {guard : State → Label → Prop}
    (exact_ : ∀ s label next, step s label = some next → holds next → guard s label)
    {s : State} {labels : List Label} (visits : Visits step holds s labels) :
    Along step guard s labels := by
  -- Each step is judged by the state that it leads to.
  induction labels generalizing s with
  | nil => trivial
  | cons label rest ih =>
    have later := visits.2
    cases taken : step s label with
    | none => simp only [Along, taken]
    | some next =>
      simp only [taken] at later
      simp only [Along, taken]
      exact ⟨exact_ s label next taken later.first, ih later⟩

/-- A guard that every step against the other one would break holds along the run as well. -/
theorem Along.mono {strong weak : State → Label → Prop}
    (weaken : ∀ s label next, step s label = some next → strong s label → weak s label)
    {s : State} {labels : List Label} (along : Along step strong s labels) :
    Along step weak s labels := by
  induction labels generalizing s with
  | nil => trivial
  | cons label rest ih =>
    -- Nothing is asked of a step that is not taken.
    cases taken : step s label with
    | none => simp only [Along, taken]
    | some next =>
      obtain ⟨met, along⟩ := along.cons taken
      simp only [Along, taken]
      exact ⟨weaken s label next taken met, ih along⟩

/-- A guard that every label of a run meets in any state holds along it. -/
theorem Along.of_forall {guard : State → Label → Prop} {s : State} {labels : List Label}
    (met : ∀ label ∈ labels, ∀ s, guard s label) : Along step guard s labels := by
  -- Whatever state a label is met in.
  induction labels generalizing s with
  | nil => trivial
  | cons label rest ih =>
    cases taken : step s label with
    | none => simp only [Along, taken]
    | some next =>
      simp only [Along, taken]
      exact ⟨met label (by simp) s, ih fun other mem => met other (List.mem_cons_of_mem _ mem)⟩

/-- Two guards that both hold along a run hold along it together. -/
theorem Along.and {one other : State → Label → Prop} {s : State} {labels : List Label}
    (along : Along step one s labels) (too : Along step other s labels) :
    Along step (fun s label => one s label ∧ other s label) s labels := by
  -- Both guards are met at each step.
  induction labels generalizing s with
  | nil => trivial
  | cons label rest ih =>
    cases taken : step s label with
    | none => simp only [Along, taken]
    | some next =>
      obtain ⟨met, along⟩ := along.cons taken
      obtain ⟨metToo, too⟩ := too.cons taken
      simp only [Along, taken]
      exact ⟨⟨met, metToo⟩, ih along too⟩

/-- An invariant of the run may be used to turn the guard into a stronger one. -/
theorem Visits.strengthen {Inv : State → Prop} {guard strong : State → Label → Prop} {s : State}
    {labels : List Label} (visits : Visits step Inv s labels)
    (along : Along step guard s labels)
    (entails : ∀ s label next, Inv s → guard s label → step s label = some next → strong s label) :
    Along step strong s labels := by
  -- The invariant holds where the guard is met.
  induction labels generalizing s with
  | nil => trivial
  | cons label rest ih =>
    have later := visits.2
    cases taken : step s label with
    | none => simp only [Along, taken]
    | some next =>
      obtain ⟨met, along⟩ := along.cons taken
      simp only [taken] at later
      simp only [Along, taken]
      exact ⟨entails s label next visits.1 met taken, ih later along⟩

/-- What every guarded step preserves, every guarded run preserves. -/
theorem run_invariant_along {guard : State → Label → Prop} (Inv : State → Prop)
    (preserved : ∀ s label next, Inv s → guard s label → step s label = some next → Inv next)
    {s last : State} {labels : List Label} (start : Inv s) (along : Along step guard s labels)
    (ran : run step s labels = some last) : Inv last :=
  (visits_of_invariant Inv preserved start along).last ran

/-- What every step preserves, every run preserves. -/
theorem run_invariant (Inv : State → Prop)
    (preserved : ∀ s label next, Inv s → step s label = some next → Inv next)
    {s last : State} {labels : List Label} (start : Inv s)
    (ran : run step s labels = some last) : Inv last := by
  -- Each label moves the invariant one state forward, whatever the label is.
  induction labels generalizing s with
  | nil =>
    simp only [run_nil, Option.some.injEq] at ran
    exact ran ▸ start
  | cons label rest ih =>
    obtain ⟨next, taken, ran⟩ := run_cons_eq_some.mp ran
    exact ih (preserved s label next start taken) ran

end Transition
