/-!
# Runs of a labelled transition system

A run is the list of its transitions, each with the state it starts in. Invariants hold in
every state of a run. Where one step keeps a property exactly when a condition holds, the
property holds all along a run exactly when every step meets the condition.
-/

namespace PaimonCore.Runs

open List

section
variable {State Label : Type} (step : State → Label → Option State)

inductive Run (start : State) : List (State × Label) → State → Prop where
  | start : Run start [] start
  | step {trace : List (State × Label)} {middle next : State} {label : Label}
      (run : Run start trace middle) (steps : step middle label = some next) :
      Run start (trace ++ [(middle, label)]) next

def Always (holds : State → Prop) (trace : List (State × Label)) (final : State) : Prop :=
  (∀ transition ∈ trace, holds transition.1) ∧ holds final

variable {step}

theorem Run.invariant {start final : State} {trace : List (State × Label)} {holds : State → Prop}
    (initially : holds start)
    (preserved : ∀ state label next, holds state → step state label = some next → holds next)
    (run : Run step start trace final) : holds final := by
  induction run with
  | start => exact initially
  | step _ steps ih => exact preserved _ _ _ ih steps

theorem Run.always_iff {start final : State} {trace : List (State × Label)}
    {invariant holds : State → Prop} {condition : State → Label → Prop}
    (initially : invariant start) (holdsInitially : holds start) (preserved : ∀ state label next,
      invariant state → step state label = some next → invariant next)
    (exact_step : ∀ state label next, invariant state → holds state →
      step state label = some next → (holds next ↔ condition state label))
    (run : Run step start trace final) :
    Always holds trace final ↔ ∀ transition ∈ trace, condition transition.1 transition.2 := by
  induction run with
  | start => simp [Always, holdsInitially]
  | @step trace middle next label run steps ih =>
    have kept := run.invariant initially preserved
    constructor
    · rintro ⟨before, after⟩
      rw [forall_mem_append, forall_mem_singleton] at before ⊢
      exact ⟨ih.mp before, (exact_step _ _ _ kept before.2 steps).mp after⟩
    · intro meets
      rw [forall_mem_append, forall_mem_singleton] at meets
      have earlier : Always holds trace middle := ih.mpr meets.1
      constructor
      · rw [forall_mem_append, forall_mem_singleton]
        exact earlier
      · exact (exact_step _ _ _ kept earlier.2 steps).mpr meets.2

def follow (step : State → Label → Option State) (start : State) :
    List Label → Option (List (State × Label) × State)
  | [] => some ([], start)
  | label :: rest =>
    match step start label with
    | none => none
    | some next => (follow step next rest).map (fun run => ((start, label) :: run.1, run.2))

theorem Run.append {start middle final : State} {first second : List (State × Label)}
    (before : Run step start first middle) (after : Run step middle second final) :
    Run step start (first ++ second) final := by
  induction after with
  | start => simpa using before
  | step _ steps ih =>
    rw [← append_assoc]
    exact ih.step steps

theorem follow_run {start final : State} {labels : List Label} {trace : List (State × Label)}
    (follows : follow step start labels = some (trace, final)) : Run step start trace final := by
  induction labels generalizing start trace with
  | nil =>
    cases follows
    exact .start
  | cons label rest ih =>
    rw [follow] at follows
    cases steps : step start label with
    | none => simp [steps] at follows
    | some next =>
      simp only [steps, Option.map_eq_some_iff] at follows
      obtain ⟨⟨later, last⟩, followsRest, same⟩ := follows
      cases same
      have first : Run step start ([] ++ [(start, label)]) next := .step .start steps
      exact first.append (ih followsRest)

end

end PaimonCore.Runs
