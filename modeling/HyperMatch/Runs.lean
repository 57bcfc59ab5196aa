import Mathlib.Tactic.SplitIfs

/-!
Runs of a machine whose steps may not be possible: the states that allowed steps lead
to, the rule that carries an invariant along them, the states that no allowed step
leaves, and a check of a run that is given by its events.
-/
namespace HyperMatch.Runs

variable {State Event : Type} {step : State → Event → Option State} {allowed : State → Event → Prop}

/-- The states that allowed steps lead to. -/
inductive Leads (step : State → Event → Option State) (allowed : State → Event → Prop) (start : State) : State → Prop
  | start : Leads step allowed start start
  | step {s s' : State} {event : Event} (before : Leads step allowed start s) (may : allowed s event)
      (taken : step s event = some s') : Leads step allowed start s'

section
variable {start s : State}

/-- What holds at the start and is kept by every allowed step holds all along. -/
theorem Leads.keeps {P : State → Prop} (leads : Leads step allowed start s) (initial : P start)
    (steps : ∀ s event s', P s → allowed s event → step s event = some s' → P s') : P s := by
  induction leads with
  | start => exact initial
  | step _ may taken ih => exact steps _ _ _ ih may taken

/-- Fewer guards allow more. -/
theorem Leads.weaken {permitted : State → Event → Prop} (leads : Leads step allowed start s)
    (weaker : ∀ s event, allowed s event → permitted s event) : Leads step permitted start s := by
  induction leads with
  | start => exact .start
  | step _ may taken ih => exact .step ih (weaker _ _ may) taken

theorem Leads.trans {s' : State} (first : Leads step allowed start s) (second : Leads step allowed s s') :
    Leads step allowed start s' := by
  induction second with
  | start => exact first
  | step _ may taken ih => exact .step ih may taken
end

/-- One allowed step. -/
def Follows (step : State → Event → Option State) (allowed : State → Event → Prop) (s' s : State) : Prop :=
  ∃ event, allowed s event ∧ step s event = some s'

/-- No allowed step is possible. -/
def Final (step : State → Event → Option State) (allowed : State → Event → Prop) (s : State) : Prop :=
  ∀ s', ¬ Follows step allowed s' s

/-- The state after some events, if all of them are allowed and possible. -/
def follow (step : State → Event → Option State) (allowed : State → Event → Prop)
    [∀ s event, Decidable (allowed s event)] (s : State) : List Event → Option State
  | [] => some s
  | event :: rest => if allowed s event then (step s event).bind (fun s => follow step allowed s rest) else none

theorem follow_leads [∀ s event, Decidable (allowed s event)] {s s' : State} {events : List Event}
    (followed : follow step allowed s events = some s') : Leads step allowed s s' := by
  induction events generalizing s with
  | nil =>
    cases followed
    exact .start
  | cons event rest ih =>
    rw [follow] at followed
    split_ifs at followed with may
    rw [Option.bind_eq_some_iff] at followed
    obtain ⟨middle,taken,later⟩ := followed
    exact (Leads.step .start may taken).trans (ih later)

end HyperMatch.Runs
