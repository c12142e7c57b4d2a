import Mathlib.Tactic

/-!
# Latched signals

A signal is a flag with one waiter.  Raising it sets the flag and wakes the
waiter; a waiter that looks at the flag clears it and goes on, or is parked
when the flag is down.

`Alert` is what a waiter needs so that it never sleeps over the condition it
waits for.  The rules below say how `Alert` survives each operation on the
signal and each change of the condition.
-/

namespace PicoFi
namespace Latch

/-- Where the task that uses the signal is: outside a wait, about to look at
the flag, or parked. -/
inductive Waiter
  | awake
  | waiting
  | parked
  deriving DecidableEq

structure Signal where
  raised : Bool
  waiter : Waiter
  deriving DecidableEq

namespace Signal

def new : Signal where
  raised := false
  waiter := .awake

def signal (s : Signal) : Signal where
  raised := true
  waiter := if s.waiter = .parked then .waiting else s.waiter

def wait (s : Signal) : Signal := { s with waiter := .waiting }

def poll (s : Signal) : Signal :=
  if s.raised then ⟨false, .awake⟩ else { s with waiter := .parked }

/-- The wait is dropped; a raised flag stays raised. -/
def cancel (s : Signal) : Signal := { s with waiter := .awake }

/-- Once the condition holds, a raised flag is about to be seen or somebody
is still to raise it. -/
def Alert (s : Signal) (condition pending : Prop) : Prop :=
  condition → (s.raised = true ∧ s.waiter ≠ .parked) ∨ pending

variable {s : Signal} {condition condition' pending pending' : Prop}

theorem alert_of_pending (hpending : pending) : s.Alert condition pending :=
  fun _ => .inr hpending

theorem alert_of_not (hcondition : ¬condition) : s.Alert condition pending :=
  fun h => absurd h hcondition

/-- The condition may become true as long as a signal for it is on its way. -/
theorem Alert.mono
    (halert : s.Alert condition pending)
    (hcondition : condition' → condition ∨ pending')
    (hpending : pending → pending') : s.Alert condition' pending' := by
  intro h
  cases hcondition h with
  | inl h => exact (halert h).imp_right hpending
  | inr h => exact .inr h

theorem signal_alert : s.signal.Alert condition pending := by
  intro _
  refine .inl ⟨rfl, ?_⟩
  cases hphase : s.waiter with
  | awake => simp [signal, hphase]
  | waiting => simp [signal, hphase]
  | parked => simp [signal, hphase]

theorem Alert.poll
    (halert : s.Alert condition pending) (hlow : s.raised = false) :
    s.poll.Alert condition pending := by
  intro h
  cases halert h with
  | inl hwoken =>
      rw [hlow] at hwoken
      cases hwoken.1
  | inr hpending => exact .inr hpending

/-- A parked waiter does not miss its condition. -/
theorem Alert.not_of_parked
    (halert : s.Alert condition pending) (hparked : s.waiter = .parked)
    (hquiet : ¬pending) : ¬condition := by
  intro h
  cases halert h with
  | inl hwoken => exact hwoken.2 hparked
  | inr hpending => exact hquiet hpending

end Signal

end Latch
end PicoFi
