import Mathlib.Tactic

/-!
# Runs of step functions

Three shapes of system occur: a total step with a reply for each event, a
total step without replies, and a step that is enabled only for some events.
For each shape this file gives the run over a list of events and the rule by
which a fact about one step becomes a fact about every run.  The trace of a
total step keeps the states its events met, for facts about the past.
-/

namespace PicoFi
namespace Runs

variable {σ τ ε ρ ρ' : Type*}

/-! ## Steps with replies -/

/-- The final state and the replies of a run, in order. -/
def replies (step : σ → ε → σ × ρ) : σ → List ε → σ × List ρ
  | s, [] => (s, [])
  | s, e :: es =>
      let next := step s e
      let rest := replies step next.1 es
      (rest.1, next.2 :: rest.2)

/-- Two systems that simulate each other step by step produce related states
and related replies on every list of events. -/
theorem replies_simulate
    (concrete : σ → ε → σ × ρ) (abstract : τ → ε → τ × ρ')
    (State : σ → τ → Prop) (Reply : ρ → ρ' → Prop)
    (hstep : ∀ s t e, State s t →
      State (concrete s e).1 (abstract t e).1 ∧
        Reply (concrete s e).2 (abstract t e).2)
    {s : σ} {t : τ} (hinit : State s t) (es : List ε) :
    State (replies concrete s es).1 (replies abstract t es).1 ∧
      List.Forall₂ Reply (replies concrete s es).2
        (replies abstract t es).2 := by
  induction es generalizing s t with
  | nil => exact ⟨hinit, List.Forall₂.nil⟩
  | cons e es ih =>
      obtain ⟨hstate, hreply⟩ := hstep s t e hinit
      obtain ⟨hfinal, hrest⟩ := ih hstate
      exact ⟨hfinal, List.Forall₂.cons hreply hrest⟩

/-! ## Total steps -/

def AllSteps (step : σ → ε → σ) (Allowed : σ → ε → Prop) : σ → List ε → Prop
  | _, [] => True
  | s, e :: es => Allowed s e ∧ AllSteps step Allowed (step s e) es

theorem invariant_of_allSteps
    {step : σ → ε → σ} {Allowed : σ → ε → Prop} {Inv : σ → Prop}
    (hstep : ∀ s e, Inv s → Allowed s e → Inv (step s e))
    {s : σ} (hinit : Inv s) {es : List ε} (hall : AllSteps step Allowed s es) :
    Inv (es.foldl step s) := by
  induction es generalizing s with
  | nil => exact hinit
  | cons e es ih =>
      exact ih (hstep s e hinit hall.1) hall.2

theorem invariant
    {step : σ → ε → σ} {Inv : σ → Prop}
    (hstep : ∀ s e, Inv s → Inv (step s e))
    {s : σ} (hinit : Inv s) (es : List ε) : Inv (es.foldl step s) := by
  induction es generalizing s with
  | nil => exact hinit
  | cons e es ih => exact ih (hstep s e hinit)

/-- Where one step keeps the invariant exactly under the condition, a run stays
inside it exactly when each of its steps meets the condition. -/
theorem allSteps_iff
    {step : σ → ε → σ} {Allowed : σ → ε → Prop} {Inv : σ → Prop}
    (hstep : ∀ s e, Inv s → (Inv (step s e) ↔ Allowed s e))
    {s : σ} (hinit : Inv s) (es : List ε) :
    AllSteps step Allowed s es ↔ ∀ front, front <+: es → Inv (front.foldl step s) := by
  induction es generalizing s with
  | nil =>
      constructor
      · intro _ front hfront
        rw [List.prefix_nil.mp hfront]
        exact hinit
      · exact fun _ => trivial
  | cons e es ih =>
      constructor
      · rintro ⟨hallowed, hrest⟩ front hfront
        cases front with
        | nil => exact hinit
        | cons first front =>
            obtain ⟨rfl, hprefix⟩ := List.cons_prefix_cons.mp hfront
            exact (ih ((hstep s first hinit).mpr hallowed)).mp hrest front hprefix
      · intro hall
        have hnext : Inv (step s e) := hall [e] ⟨es, rfl⟩
        refine ⟨(hstep s e hinit).mp hnext, (ih hnext).mpr ?_⟩
        exact fun front hfront =>
          hall (e :: front) (List.cons_prefix_cons.mpr ⟨rfl, hfront⟩)

/-! ## Traces of total steps -/

/-- The events of a run, each with the state that took it. -/
def trace (step : σ → ε → σ) : σ → List ε → List (σ × ε)
  | _, [] => []
  | s, e :: es => (s, e) :: trace step (step s e) es

@[simp] theorem trace_nil {step : σ → ε → σ} {s : σ} : trace step s [] = [] := rfl

@[simp] theorem trace_cons {step : σ → ε → σ} {s : σ} {e : ε} {es : List ε} :
    trace step s (e :: es) = (s, e) :: trace step (step s e) es := rfl

theorem trace_append {step : σ → ε → σ} {s : σ} {front back : List ε} :
    trace step s (front ++ back) =
      trace step s front ++ trace step (front.foldl step s) back := by
  induction front generalizing s with
  | nil => rfl
  | cons e front ih => simp [ih]

theorem map_snd_trace {step : σ → ε → σ} {s : σ} {es : List ε} :
    (trace step s es).map Prod.snd = es := by
  induction es generalizing s with
  | nil => rfl
  | cons e es ih => simp [ih]

/-- A trace cut at one of its entries is the trace of the run up to it and the
trace of the rest. -/
theorem trace_eq_append_cons {step : σ → ε → σ} {s t : σ} {es : List ε} {e : ε}
    {front back : List (σ × ε)}
    (htrace : trace step s es = front ++ (t, e) :: back) :
    ∃ before after, es = before ++ e :: after ∧ trace step s before = front ∧
      t = before.foldl step s ∧ trace step (step t e) after = back := by
  induction front generalizing s es with
  | nil =>
      cases es with
      | nil => simp at htrace
      | cons first es =>
          simp only [trace_cons, List.nil_append, List.cons.injEq, Prod.mk.injEq]
            at htrace
          obtain ⟨⟨rfl, rfl⟩, hrest⟩ := htrace
          exact ⟨[], es, rfl, rfl, rfl, hrest⟩
  | cons entry front ih =>
      cases es with
      | nil => simp at htrace
      | cons first es =>
          simp only [trace_cons, List.cons_append, List.cons.injEq] at htrace
          obtain ⟨rfl, hrest⟩ := htrace
          obtain ⟨before, after, rfl, hfront, hstate, hback⟩ := ih hrest
          exact ⟨first :: before, after, rfl, by simp [hfront], hstate, hback⟩

/-- A fact about the past of a run and its state holds after every run when
each step that the past allows keeps it. -/
theorem trace_invariant {step : σ → ε → σ} (Inv : List (σ × ε) → σ → Prop)
    (Allowed : List (σ × ε) → σ → ε → Prop)
    (hstep : ∀ past s e, Inv past s → Allowed past s e →
      Inv (past ++ [(s, e)]) (step s e))
    {past : List (σ × ε)} {s : σ} (hinit : Inv past s) {es : List ε}
    (hallowed : ∀ front t e back, trace step s es = front ++ (t, e) :: back →
      Allowed (past ++ front) t e) :
    Inv (past ++ trace step s es) (es.foldl step s) := by
  induction es generalizing past s with
  | nil => simpa using hinit
  | cons e es ih =>
      have hfirst : Inv (past ++ [(s, e)]) (step s e) := by
        refine hstep past s e hinit ?_
        simpa using hallowed [] s e _ rfl
      have hlater : ∀ front t next back,
          trace step (step s e) es = front ++ (t, next) :: back →
          Allowed (past ++ [(s, e)] ++ front) t next := by
        intro front t next back hcut
        simpa using hallowed ((s, e) :: front) t next back (by simp [hcut])
      simpa using ih hfirst hlater

/-! ## Steps that may be disabled -/

/-- The run takes the events in order, each of them enabled. -/
def Reaches (step : σ → ε → Option σ) (s : σ) (es : List ε) (t : σ) : Prop :=
  es.foldlM step s = some t

@[simp] theorem reaches_nil {step : σ → ε → Option σ} {s t : σ} :
    Reaches step s [] t ↔ s = t := by
  simp [Reaches]

@[simp] theorem reaches_cons {step : σ → ε → Option σ} {s t : σ} {e : ε}
    {es : List ε} :
    Reaches step s (e :: es) t ↔ ∃ u, step s e = some u ∧ Reaches step u es t := by
  simp [Reaches, List.foldlM_cons, Option.bind_eq_some_iff]

theorem reaches_append {step : σ → ε → Option σ} {s t : σ}
    {front back : List ε} :
    Reaches step s (front ++ back) t ↔
      ∃ u, Reaches step s front u ∧ Reaches step u back t := by
  induction front generalizing s with
  | nil => simp
  | cons e front ih =>
      simp only [List.cons_append, reaches_cons, ih]
      constructor
      · rintro ⟨u, hu, v, hv, ht⟩
        exact ⟨v, ⟨u, hu, hv⟩, ht⟩
      · rintro ⟨v, ⟨u, hu, hv⟩, ht⟩
        exact ⟨u, hu, v, hv, ht⟩

theorem Reaches.invariant
    {step : σ → ε → Option σ} {Inv : σ → Prop}
    (hstep : ∀ s e t, Inv s → step s e = some t → Inv t)
    {s t : σ} {es : List ε} (hreach : Reaches step s es t) (hinit : Inv s) :
    Inv t := by
  induction es generalizing s with
  | nil =>
      rw [reaches_nil] at hreach
      exact hreach ▸ hinit
  | cons e es ih =>
      obtain ⟨u, hu, hrest⟩ := reaches_cons.mp hreach
      exact ih hrest (hstep s e u hinit hu)

/-- A measure that each allowed event raises bounds the length of a run. -/
theorem Reaches.length_le
    {step : σ → ε → Option σ} {Inv : σ → Prop} {Allowed : ε → Prop} {f : σ → ℕ}
    (hstep : ∀ s e t, Inv s → Allowed e → step s e = some t → Inv t ∧ f s < f t)
    {s t : σ} {es : List ε} (hreach : Reaches step s es t)
    (hallowed : ∀ e ∈ es, Allowed e) (hinit : Inv s) :
    Inv t ∧ es.length + f s ≤ f t := by
  induction es generalizing s with
  | nil =>
      rw [reaches_nil] at hreach
      exact ⟨hreach ▸ hinit, by simp [hreach]⟩
  | cons e es ih =>
      obtain ⟨u, hu, hrest⟩ := reaches_cons.mp hreach
      obtain ⟨hinv, hlt⟩ := hstep s e u hinit (hallowed e (by simp)) hu
      obtain ⟨hfinal, hle⟩ :=
        ih hrest (fun e he => hallowed e (List.mem_cons_of_mem _ he)) hinv
      refine ⟨hfinal, ?_⟩
      rw [List.length_cons]
      omega

/-- The same run, every step of which is taken under the condition. -/
def ReachesWhile (step : σ → ε → Option σ) (Allowed : σ → ε → Prop) :
    σ → List ε → σ → Prop
  | s, [], t => s = t
  | s, e :: es, t =>
      Allowed s e ∧ ∃ u, step s e = some u ∧ ReachesWhile step Allowed u es t

theorem ReachesWhile.reaches
    {step : σ → ε → Option σ} {Allowed : σ → ε → Prop} {s t : σ} {es : List ε}
    (hreach : ReachesWhile step Allowed s es t) : Reaches step s es t := by
  induction es generalizing s with
  | nil => exact reaches_nil.mpr hreach
  | cons e es ih =>
      obtain ⟨-, u, hu, hrest⟩ := hreach
      exact reaches_cons.mpr ⟨u, hu, ih hrest⟩

theorem ReachesWhile.append
    {step : σ → ε → Option σ} {Allowed : σ → ε → Prop} {s t u : σ} {front back : List ε}
    (hfront : ReachesWhile step Allowed s front t)
    (hback : ReachesWhile step Allowed t back u) :
    ReachesWhile step Allowed s (front ++ back) u := by
  induction front generalizing s with
  | nil =>
      obtain rfl : s = t := hfront
      exact hback
  | cons e front ih =>
      obtain ⟨hallowed, v, hv, hrest⟩ := hfront
      exact ⟨hallowed, v, hv, ih hrest⟩

/-- The step with its condition as a guard. -/
def guarded (step : σ → ε → Option σ) (Allowed : σ → ε → Prop)
    [∀ s e, Decidable (Allowed s e)] (s : σ) (e : ε) : Option σ :=
  if Allowed s e then step s e else none

theorem ReachesWhile.of_guarded
    {step : σ → ε → Option σ} {Allowed : σ → ε → Prop}
    [∀ s e, Decidable (Allowed s e)] {s t : σ} {es : List ε}
    (hreach : Reaches (guarded step Allowed) s es t) :
    ReachesWhile step Allowed s es t := by
  induction es generalizing s with
  | nil => exact reaches_nil.mp hreach
  | cons e es ih =>
      obtain ⟨u, hu, hrest⟩ := reaches_cons.mp hreach
      obtain ⟨hallowed, hstep⟩ := Option.ite_none_right_eq_some.mp hu
      exact ⟨hallowed, u, hstep, ih hrest⟩

theorem ReachesWhile.invariant
    {step : σ → ε → Option σ} {Allowed : σ → ε → Prop} {Inv : σ → Prop}
    (hstep : ∀ s e t, Inv s → Allowed s e → step s e = some t → Inv t)
    {s t : σ} {es : List ε} (hreach : ReachesWhile step Allowed s es t)
    (hinit : Inv s) : Inv t := by
  induction es generalizing s with
  | nil => exact hreach ▸ hinit
  | cons e es ih =>
      obtain ⟨hallowed, u, hu, hrest⟩ := hreach
      exact ih hrest (hstep s e u hinit hallowed hu)

end Runs
end PicoFi
