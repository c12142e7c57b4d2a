import PicoFi.StepRuns

/-!
# Two components joined by a pair of streams

A component takes steps of its own and has two logs: what its end of a
connection has accepted from it and what it has taken from that end.  Wired to
another component it may take no more than the other one has sent, in order
and at any later time.  A run of the pair is an interleaving of a run of each
component, and what one of them has taken is always a prefix of what the other
one has sent.
-/

namespace PicoFi
namespace Wired

variable {σ τ ε δ α : Type*}

/-! ## Two step functions in turns -/

/-- Either side takes a step, and ends where its guard allows it next to the
other side. -/
def interleave (f : σ → ε → Option σ) (g : τ → δ → Option τ) (L R : σ → τ → Prop)
    [∀ s t, Decidable (L s t)] [∀ s t, Decidable (R s t)] :
    σ × τ → ε ⊕ δ → Option (σ × τ)
  | (s, t), .inl e =>
      (f s e).bind fun next => if L next t then some (next, t) else none
  | (s, t), .inr e =>
      (g t e).bind fun next => if R s next then some (s, next) else none

section Interleave

variable {f : σ → ε → Option σ} {g : τ → δ → Option τ} {L R : σ → τ → Prop}
variable [∀ s t, Decidable (L s t)] [∀ s t, Decidable (R s t)] {s t : σ × τ}

/-- A step of the pair is a step of one side. -/
theorem interleave_cases {e : ε ⊕ δ} (hstep : interleave f g L R s e = some t) :
    (∃ e', e = .inl e' ∧ f s.1 e' = some t.1 ∧ t.2 = s.2 ∧ L t.1 s.2) ∨
      ∃ e', e = .inr e' ∧ g s.2 e' = some t.2 ∧ t.1 = s.1 ∧ R s.1 t.2 := by
  cases e with
  | inl e =>
      obtain ⟨next, hnext, hguard⟩ := Option.bind_eq_some_iff.mp hstep
      obtain ⟨hallowed, heq⟩ := Option.ite_none_right_eq_some.mp hguard
      cases heq
      exact .inl ⟨e, rfl, hnext, rfl, hallowed⟩
  | inr e =>
      obtain ⟨next, hnext, hguard⟩ := Option.bind_eq_some_iff.mp hstep
      obtain ⟨hallowed, heq⟩ := Option.ite_none_right_eq_some.mp hguard
      cases heq
      exact .inr ⟨e, rfl, hnext, rfl, hallowed⟩

theorem interleave_left {es : List (ε ⊕ δ)}
    (hreach : Runs.Reaches (interleave f g L R) s es t) :
    Runs.Reaches f s.1 (es.filterMap Sum.getLeft?) t.1 := by
  induction es generalizing s with
  | nil => exact Runs.reaches_nil.mpr (congrArg Prod.fst (Runs.reaches_nil.mp hreach))
  | cons e es ih =>
      obtain ⟨u, hstep, hrest⟩ := Runs.reaches_cons.mp hreach
      obtain ⟨e, rfl, hnext, -⟩ | ⟨e, rfl, -, hsame, -⟩ := interleave_cases hstep
      · exact Runs.reaches_cons.mpr ⟨u.1, hnext, ih hrest⟩
      · exact hsame ▸ ih hrest

theorem interleave_right {es : List (ε ⊕ δ)}
    (hreach : Runs.Reaches (interleave f g L R) s es t) :
    Runs.Reaches g s.2 (es.filterMap Sum.getRight?) t.2 := by
  induction es generalizing s with
  | nil => exact Runs.reaches_nil.mpr (congrArg Prod.snd (Runs.reaches_nil.mp hreach))
  | cons e es ih =>
      obtain ⟨u, hstep, hrest⟩ := Runs.reaches_cons.mp hreach
      obtain ⟨e, rfl, -, hsame, -⟩ | ⟨e, rfl, hnext, -⟩ := interleave_cases hstep
      · exact hsame ▸ ih hrest
      · exact Runs.reaches_cons.mpr ⟨u.2, hnext, ih hrest⟩

end Interleave

structure Component (σ ε α : Type*) where
  step : σ → ε → Option σ
  /-- What the connection has accepted from the component. -/
  sent : σ → List α
  /-- What the component has taken from the connection. -/
  taken : σ → List α
  sent_mono : ∀ {s e t}, step s e = some t → sent s <+: sent t

namespace Component

/-! ## One component after another on the same connection -/

structure Phases (σ τ : Type*) where
  first : σ
  /-- The second component once the first one has handed over. -/
  second : Option τ

def Phases.start (s : σ) : Phases σ τ := ⟨s, none⟩

/-- The second component starts in the step that completes the first. -/
def phaseStep (first : Component σ ε α) (second : Component τ δ α)
    (handover : σ → Option τ) (p : Phases σ τ) : ε ⊕ δ → Option (Phases σ τ)
  | .inl e =>
      match p.second with
      | none => (first.step p.first e).map fun next => ⟨next, handover next⟩
      | some _ => none
  | .inr e =>
      match p.second with
      | none => none
      | some t => (second.step t e).map fun next => ⟨p.first, some next⟩

theorem phaseStep_cases {first : Component σ ε α} {second : Component τ δ α}
    {handover : σ → Option τ} {p q : Phases σ τ} {e : ε ⊕ δ}
    (hstep : first.phaseStep second handover p e = some q) :
    (∃ e', e = .inl e' ∧ p.second = none ∧ first.step p.first e' = some q.first ∧
        q.second = handover q.first) ∨
      ∃ e' t t', e = .inr e' ∧ p.second = some t ∧ second.step t e' = some t' ∧
        q = ⟨p.first, some t'⟩ := by
  cases e with
  | inl e =>
      cases hsecond : p.second with
      | some t => simp [phaseStep, hsecond] at hstep
      | none =>
          simp only [phaseStep, hsecond, Option.map_eq_some_iff] at hstep
          obtain ⟨next, hnext, rfl⟩ := hstep
          exact .inl ⟨e, rfl, rfl, hnext, rfl⟩
  | inr e =>
      cases hsecond : p.second with
      | none => simp [phaseStep, hsecond] at hstep
      | some t =>
          simp only [phaseStep, hsecond, Option.map_eq_some_iff] at hstep
          obtain ⟨next, hnext, rfl⟩ := hstep
          exact .inr ⟨e, t, next, rfl, rfl, hnext, rfl⟩

def andThen (first : Component σ ε α) (second : Component τ δ α)
    (handover : σ → Option τ) : Component (Phases σ τ) (ε ⊕ δ) α where
  step := first.phaseStep second handover
  sent p := first.sent p.first ++ p.second.elim [] second.sent
  taken p := first.taken p.first ++ p.second.elim [] second.taken
  sent_mono {p e q} hstep := by
    obtain ⟨e, rfl, hnone, hnext, -⟩ | ⟨e, t, t', rfl, hsome, hnext, rfl⟩ :=
      phaseStep_cases hstep
    · rw [hnone, Option.elim_none, List.append_nil]
      exact (first.sent_mono hnext).trans (List.prefix_append _ _)
    · rw [hsome, Option.elim_some, Option.elim_some]
      exact (List.prefix_append_right_inj _).mpr (second.sent_mono hnext)

/-- What the second component has done is a run of its own, from where the
first one handed over. -/
structure Phased (first : Component σ ε α) (second : Component τ δ α)
    (handover : σ → Option τ) (s : σ) (p : Phases σ τ) : Prop where
  first_run : ∃ es, Runs.Reaches first.step s es p.first
  second_run : ∀ t, p.second = some t → ∃ t₀ es, handover p.first = some t₀ ∧
    Runs.Reaches second.step t₀ es t
  not_yet : handover s = none → p.second = none → handover p.first = none

theorem phased_of_reaches
    {first : Component σ ε α} {second : Component τ δ α} {handover : σ → Option τ}
    {s : σ} {es : List (ε ⊕ δ)} {p : Phases σ τ}
    (hreach : Runs.Reaches (first.andThen second handover).step
      (Phases.start s) es p) : Phased first second handover s p := by
  refine hreach.invariant (fun p e q hp hstep => ?_)
    ⟨⟨[], Runs.reaches_nil.mpr rfl⟩, (fun t ht => nomatch ht), fun hnone _ => hnone⟩
  obtain ⟨front, hfront⟩ := hp.first_run
  obtain ⟨e, rfl, -, hnext, hsecond⟩ | ⟨e, t, t', rfl, hsome, hnext, rfl⟩ :=
    phaseStep_cases hstep
  · refine ⟨⟨front ++ [e], Runs.reaches_append.mpr ⟨_, hfront, ?_⟩⟩, ?_, ?_⟩
    · exact Runs.reaches_cons.mpr ⟨_, hnext, Runs.reaches_nil.mpr rfl⟩
    · exact fun t ht => ⟨t, [], hsecond.symm.trans ht, Runs.reaches_nil.mpr rfl⟩
    · exact fun _ hnone => hsecond.symm.trans hnone
  · obtain ⟨t₀, back, ht₀, hback⟩ := hp.second_run t hsome
    refine ⟨⟨front, hfront⟩, fun u hu => ⟨t₀, back ++ [e], ht₀, ?_⟩,
      fun _ hnone => nomatch hnone⟩
    cases hu
    refine Runs.reaches_append.mpr ⟨t, hback, ?_⟩
    exact Runs.reaches_cons.mpr ⟨_, hnext, Runs.reaches_nil.mpr rfl⟩

end Component

/-! ## The pair -/

variable [DecidableEq α]

/-- Either component takes a step; it ends with no more taken than the other
one has sent. -/
def step (a : Component σ ε α) (b : Component τ δ α) :
    σ × τ → ε ⊕ δ → Option (σ × τ) :=
  interleave a.step b.step (fun s t => a.taken s <+: b.sent t)
    fun s t => b.taken t <+: a.sent s

structure Joined (a : Component σ ε α) (b : Component τ δ α) (s : σ × τ) :
    Prop where
  left : a.taken s.1 <+: b.sent s.2
  right : b.taken s.2 <+: a.sent s.1

variable {a : Component σ ε α} {b : Component τ δ α} {s t : σ × τ}

theorem Joined.afterStep (hjoined : Joined a b s) {e : ε ⊕ δ}
    (hstep : step a b s e = some t) : Joined a b t := by
  obtain ⟨e, rfl, hnext, hsame, htaken⟩ | ⟨e, rfl, hnext, hsame, htaken⟩ :=
    interleave_cases hstep
  · exact ⟨hsame ▸ htaken, hsame ▸ hjoined.right.trans (a.sent_mono hnext)⟩
  · exact ⟨hsame ▸ hjoined.left.trans (b.sent_mono hnext), hsame ▸ htaken⟩

theorem joined_of_reaches {es : List (ε ⊕ δ)} (hinit : Joined a b s)
    (hreach : Runs.Reaches (step a b) s es t) : Joined a b t :=
  hreach.invariant (fun _ _ _ h hstep => h.afterStep hstep) hinit

/-- Behind first parts of one length a stream continues a stream: the second
parts are prefixes of one another as well. -/
theorem prefix_of_append_prefix {front taken sent back : List α}
    (hbegin : front ++ taken <+: sent ++ back) (hshort : sent.length ≤ front.length)
    (hback : sent.length < front.length → back = []) : taken <+: back := by
  rcases Nat.lt_or_eq_of_le hshort with hlt | heq
  · rw [hback hlt, List.append_nil] at hbegin
    have hlen := hbegin.length_le
    rw [List.length_append] at hlen
    omega
  · have hfront : front = sent := by
      have htake := List.prefix_iff_eq_take.mp ((List.prefix_append _ _).trans hbegin)
      rwa [heq.symm, List.take_left'] at htake
      rfl
    rw [hfront] at hbegin
    exact (List.prefix_append_right_inj sent).mp hbegin

end Wired
end PicoFi
