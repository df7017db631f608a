import Mathlib.Data.List.Forall2

/-!
# Fallible programs over a state

A program returns a result or fails, and in both cases leaves a state behind. `Meets` states a
precondition, the postcondition of a normal return and the condition a failure leaves; the rules
below are used instead of unfolding programs.
-/

namespace PaimonCore.Programs

open List

abbrev Program (State Error : Type) := ExceptT Error (StateM State)

variable {Error Value Next : Type}

theorem bind_eq_ok {first : Except Error Value} {rest : Value → Except Error Next} {result : Next} :
    (first >>= rest) = .ok result ↔ ∃ value, first = .ok value ∧ rest value = .ok result := by
  cases first with
  | error error => simp [Bind.bind, Except.bind]
  | ok value => simp [Bind.bind, Except.bind]

theorem bind_eq_error {first : Except Error Value} {rest : Value → Except Error Next}
    {failure : Error} : (first >>= rest) = .error failure ↔
      first = .error failure ∨ ∃ value, first = .ok value ∧ rest value = .error failure := by
  cases first with
  | error error => simp [Bind.bind, Except.bind]
  | ok value => simp [Bind.bind, Except.bind]

variable {program : Value → Except Error Next}

theorem map_m_pairs {values : List Value} {results : List Next}
    (traversed : values.mapM program = .ok results) :
    List.Forall₂ (fun value result => program value = .ok result) values results := by
  induction values generalizing results with
  | nil =>
    cases traversed
    exact .nil
  | cons value rest ih =>
    rw [mapM_cons] at traversed
    obtain ⟨result, isResult, traversed⟩ := bind_eq_ok.mp traversed
    obtain ⟨later, restTraversed, traversed⟩ := bind_eq_ok.mp traversed
    cases traversed
    exact .cons isResult (ih restTraversed)

theorem map_m_ok {values : List Value} {results : List Next}
    (traversed : values.mapM program = .ok results) :
    (∀ value ∈ values, ∃ result ∈ results, program value = .ok result) ∧
      ∀ result ∈ results, ∃ value ∈ values, program value = .ok result := by
  have pairs := map_m_pairs traversed
  clear traversed
  induction pairs with
  | nil => exact ⟨nofun, nofun⟩
  | @cons value result values results isResult _ ih =>
    simp only [mem_cons, forall_eq_or_imp, exists_eq_or_imp]
    exact ⟨⟨.inl isResult, fun other mem => .inr (ih.1 other mem)⟩,
      .inl isResult, fun other mem => .inr (ih.2 other mem)⟩

theorem map_m_total {values : List Value}
    (total : ∀ value ∈ values, ∃ result, program value = .ok result) :
    ∃ results, values.mapM program = .ok results := by
  induction values with
  | nil => exact ⟨[], rfl⟩
  | cons value rest ih =>
    obtain ⟨result, isResult⟩ := total value mem_cons_self
    obtain ⟨later, restTraversed⟩ := ih (forall_mem_cons.mp total).2
    rw [mapM_cons]
    exact ⟨result :: later,
      bind_eq_ok.mpr ⟨result, isResult, bind_eq_ok.mpr ⟨later, restTraversed, rfl⟩⟩⟩

section
variable {State Error Result Next Item : Type}

def runFrom (program : Program State Error Result) (state : State) : Except Error Result × State :=
  program state

def Meets (before : State → Prop) (program : Program State Error Result)
    (after : Result → State → Prop) (failed : State → Prop) : Prop :=
  ∀ state, before state →
    (∀ result state', runFrom program state = (.ok result, state') → after result state') ∧
      (∀ error state', runFrom program state = (.error error, state') → failed state')

/-- A scope guard: `cleanup` runs on the state a failure leaves. -/
def guarded (program : Program State Error Result) (cleanup : State → State) :
    Program State Error Result := fun state =>
  match runFrom program state with
  | (.ok result, state') => (.ok result, state')
  | (.error error, state') => (.error error, cleanup state')

theorem run_bind (program : Program State Error Result) (rest : Result → Program State Error Next)
    (state : State) :
    runFrom (program >>= rest) state = match runFrom program state with
      | (.ok result, state') => runFrom (rest result) state'
      | (.error error, state') => (.error error, state') := by
  simp only [runFrom, Bind.bind, ExceptT.bind, ExceptT.mk, StateT.bind]
  rcases program state with ⟨result | result, state'⟩ <;> rfl

theorem run_guarded (program : Program State Error Result) (cleanup : State → State)
    (state : State) :
    runFrom (guarded program cleanup) state = match runFrom program state with
      | (.ok result, state') => (.ok result, state')
      | (.error error, state') => (.error error, cleanup state') := rfl

def zoom {Inner : Type} (view : State → Inner) (update : State → Inner → State)
    (program : Program Inner Error Result) : Program State Error Result := fun state =>
  let (result, inner) := runFrom program (view state)
  (result, update state inner)

variable {before : State → Prop} {failed failed' : State → Prop}
variable {after : Result → State → Prop} {next : Next → State → Prop}

theorem Meets.pure (result : Result) (holds : ∀ state, before state → after result state) :
    Meets before (Pure.pure result : Program State Error Result) after failed := by
  intro state start
  refine ⟨fun returned state' run => ?_, fun error state' run => ?_⟩
  · obtain ⟨rfl, rfl⟩ := run
    exact holds state start
  · cases run

theorem Meets.throw (error : Error) (holds : ∀ state, before state → failed state) :
    Meets before (throw error : Program State Error Result) after failed := by
  intro state start
  refine ⟨fun returned state' run => ?_, fun thrown state' run => ?_⟩
  · cases run
  · rw [Prod.mk.injEq] at run
    exact run.2 ▸ holds state start

variable {program : Program State Error Result}

theorem Meets.bind (after : Result → State → Prop) {rest : Result → Program State Error Next}
    (first : Meets before program after failed)
    (second : ∀ result, Meets (after result) (rest result) next failed) :
    Meets before (program >>= rest) next failed := by
  intro state start
  obtain ⟨returns, fails⟩ := first state start
  rw [run_bind]
  rcases outcome : runFrom program state with ⟨error | result, middle⟩
  · refine ⟨fun returned state' run => (by cases run), fun thrown state' run => ?_⟩
    rw [Prod.mk.injEq] at run
    exact run.2 ▸ fails error middle outcome
  · exact second result middle (returns result middle outcome)

theorem Meets.weaken {before' : State → Prop} {after' : Result → State → Prop}
    (meets : Meets before program after failed) (start : ∀ state, before' state → before state)
    (finish : ∀ result state, after result state → after' result state)
    (failure : ∀ state, failed state → failed' state) : Meets before' program after' failed' := by
  intro state holds
  obtain ⟨returns, fails⟩ := meets state (start state holds)
  exact ⟨fun result state' run => finish result state' (returns result state' run),
    fun error state' run => failure state' (fails error state' run)⟩

theorem Meets.guarded (failed : State → Prop) {cleanup : State → State}
    (meets : Meets before program after failed)
    (cleaned : ∀ state, failed state → failed' (cleanup state)) :
    Meets before (guarded program cleanup) after failed' := by
  intro state start
  obtain ⟨returns, fails⟩ := meets state start
  rw [run_guarded]
  rcases outcome : runFrom program state with ⟨error | result, middle⟩
  · refine ⟨fun returned state' run => (by cases run), fun thrown state' run => ?_⟩
    rw [Prod.mk.injEq] at run
    exact run.2 ▸ cleaned middle (fails error middle outcome)
  · refine ⟨fun returned state' run => ?_, fun thrown state' run => by cases run⟩
    exact returns returned state' (outcome.trans run)

theorem Meets.fact {fact : Prop} (meets : fact → Meets before program after failed) :
    Meets (fun state => fact ∧ before state) program after failed :=
  fun state start => meets start.1 state start.2

theorem Meets.bindValue (value : Result) (middle : State → Prop)
    {rest : Result → Program State Error Next}
    (first : Meets before program (fun result state => result = value ∧ middle state) failed)
    (second : Meets middle (rest value) next failed) :
    Meets before (program >>= rest) next failed := by
  apply Meets.bind _ first
  intro result
  apply Meets.fact
  intro same
  rw [same]
  exact second

theorem Meets.pointwise (meets : ∀ start, before start → Meets (fun state =>
    state = start) program after failed) :
    Meets before program after failed :=
  fun state start => meets state start state rfl

theorem Meets.total (after : Result → State → Prop) {result : State → Result}
    {transform : State → State}
    (holds : ∀ state, before state → after (result state) (transform state)) :
    Meets before (fun state => (.ok (result state), transform state) : Program State Error Result)
      after failed := by
  intro state start
  refine ⟨fun returned state' run => ?_, fun error state' run => by cases run⟩
  obtain ⟨rfl, rfl⟩ := run
  exact holds state start

/-- What a program does to a part of the state it does inside the whole. -/
theorem Meets.zoom {Inner : Type} {view : State → Inner} {update : State → Inner → State}
    {program : Program Inner Error Result} {innerBefore : Inner → Prop}
    {innerAfter : Result → Inner → Prop} {innerFailed : Inner → Prop}
    (frame : State → Prop) (viewUpdate : ∀ state inner, view (update state inner) = inner)
    (frameUpdate : ∀ state inner, frame state → frame (update state inner))
    (meets : Meets innerBefore program innerAfter innerFailed) :
    Meets (fun state => innerBefore (view state) ∧ frame state) (Programs.zoom view update program)
      (fun result state => innerAfter result (view state) ∧ frame state)
      (fun state => innerFailed (view state) ∧ frame state) := by
  intro state start
  obtain ⟨returns, fails⟩ := meets (view state) start.1
  rcases outcome : runFrom program (view state) with ⟨result, inner⟩
  have zoomed : runFrom (Programs.zoom view update program) state =
      (result, update state inner) := by
    show (match runFrom program (view state) with
      | (result, inner) => (result, update state inner)) = _
    rw [outcome]
  rw [zoomed]
  refine ⟨fun value state' run => ?_, fun error state' run => ?_⟩ <;>
    (rw [Prod.mk.injEq] at run; obtain ⟨rfl, rfl⟩ := run; rw [viewUpdate])
  · exact ⟨returns value inner outcome, frameUpdate state inner start.2⟩
  · exact ⟨fails error inner outcome, frameUpdate state inner start.2⟩

/-- The loop rule; the invariant speaks of the items already handled, a front part of the list. -/
theorem Meets.forEach {Accumulator : Type}
    {step : Accumulator → Item → Program State Error Accumulator} {items : List Item}
    (invariant : List Item → Accumulator → State → Prop)
    (preserved : ∀ handled item later acc, items = handled ++ item :: later →
      Meets (invariant handled acc) (step acc item) (invariant (handled ++ [item])) failed)
        (acc : Accumulator) :
    Meets (invariant [] acc) (items.foldlM step acc) (invariant items) failed := by
  have fromHandled : ∀ later handled acc, items = handled ++ later →
      Meets (invariant handled acc) (later.foldlM step acc) (invariant items) failed := by
    intro later
    induction later with
    | nil =>
      rintro handled acc rfl
      rw [append_nil]
      exact Meets.pure acc (fun _ holds => holds)
    | cons item rest ih =>
      intro handled acc split
      apply Meets.bind _ (preserved handled item rest acc split)
      intro accumulator'
      exact ih (handled ++ [item]) accumulator' (by simpa using split)
  exact fromHandled items [] acc rfl

end

end PaimonCore.Programs
