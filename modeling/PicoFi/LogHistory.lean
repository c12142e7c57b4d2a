import Mathlib.Tactic

/-!
# Logs read from their last mark

Some entries of a log are marks: they begin or end whatever the log records.
`Since` cuts a log at its last mark.  The cut is unique, and appending an entry
either extends what lies behind the mark or becomes the new mark.  Where a system appends at most one
entry a step, every entry of a run's log belongs to one of its steps.
-/

namespace PicoFi
namespace History

variable {α : Type*} {Marks : α → Prop} {log before since : List α} {mark e : α}

structure Since (Marks : α → Prop) (log before : List α) (mark : α)
    (since : List α) : Prop where
  log_eq : log = before ++ mark :: since
  marks : Marks mark
  unmarked : ∀ e ∈ since, ¬Marks e

namespace Since

theorem afterMark (log : List α) (hmark : Marks e) :
    Since Marks (log ++ [e]) log e [] := by
  constructor
  · rfl
  · exact hmark
  · simp

theorem concat (hsince : Since Marks log before mark since) (he : ¬Marks e) :
    Since Marks (log ++ [e]) before mark (since ++ [e]) := by
  constructor
  · rw [hsince.log_eq, List.append_assoc, List.cons_append]
  · exact hsince.marks
  · intro e' he'
    rcases List.mem_append.mp he' with h | h
    · exact hsince.unmarked e' h
    · rw [List.mem_singleton.mp h]
      exact he

theorem of_concat (hsince : Since Marks (log ++ [e]) before mark since) :
    (Marks e ∧ mark = e ∧ before = log ∧ since = []) ∨
      (¬Marks e ∧ ∃ rest, since = rest ++ [e] ∧
        Since Marks log before mark rest) := by
  have hlog := hsince.log_eq
  rcases List.eq_nil_or_concat since with rfl | ⟨rest, last, rfl⟩
  · obtain ⟨hfront, he⟩ := List.append_inj' hlog rfl
    obtain rfl : e = mark := List.singleton_inj.mp he
    exact .inl ⟨hsince.marks, rfl, hfront.symm, rfl⟩
  · rw [List.concat_eq_append, ← List.cons_append, ← List.append_assoc] at hlog
    obtain ⟨hfront, he⟩ := List.append_inj' hlog rfl
    obtain rfl : e = last := List.singleton_inj.mp he
    have hunmarked := hsince.unmarked
    rw [List.concat_eq_append] at hunmarked
    refine .inr ⟨hunmarked e (by simp), rest, List.concat_eq_append, hfront,
      hsince.marks, ?_⟩
    intro e' he'
    exact hunmarked e' (by simp [he'])

theorem not_nil : ¬Since Marks [] before mark since := by
  intro hsince
  have hlog := hsince.log_eq
  simp at hlog

theorem unique {before' since' : List α} {mark' : α}
    (hsince : Since Marks log before mark since)
    (hsince' : Since Marks log before' mark' since') :
    before = before' ∧ mark = mark' ∧ since = since' := by
  induction log using List.reverseRecOn generalizing since since' with
  | nil => exact absurd hsince not_nil
  | append_singleton log e ih =>
      rcases hsince.of_concat with
        ⟨hmark, rfl, rfl, rfl⟩ | ⟨hmark, rest, rfl, hrest⟩
      · rcases hsince'.of_concat with
          ⟨-, rfl, rfl, rfl⟩ | ⟨hnot, -⟩
        · exact ⟨rfl, rfl, rfl⟩
        · exact absurd hmark hnot
      · rcases hsince'.of_concat with
          ⟨hnot, -⟩ | ⟨-, rest', rfl, hrest'⟩
        · exact absurd hnot hmark
        · obtain ⟨rfl, rfl, rfl⟩ := ih hrest hrest'
          exact ⟨rfl, rfl, rfl⟩

/-- A mark that is not the last one lies before it, with all that precedes
it. -/
theorem prefix_before {front : List α} (hsince : Since Marks log before mark since)
    (hfront : front ++ [e] <+: log) (he : Marks e) (hne : e ≠ mark) :
    front ++ [e] <+: before := by
  have hbefore : before <+: log := ⟨mark :: since, hsince.log_eq.symm⟩
  rcases List.prefix_or_prefix_of_prefix hfront hbefore with h | ⟨rest, hrest⟩
  · exact h
  · rcases List.eq_nil_or_concat rest with rfl | ⟨rest, last, rfl⟩
    · rw [List.append_nil] at hrest
      exact ⟨[], by rw [hrest, List.append_nil]⟩
    · exfalso
      rw [List.concat_eq_append, ← List.append_assoc] at hrest
      obtain ⟨rfl, hlast⟩ := List.append_inj' hrest rfl
      obtain rfl : last = e := List.singleton_inj.mp hlast
      obtain ⟨back, hback⟩ := hfront
      rw [hsince.log_eq, List.append_assoc, List.append_assoc,
        List.append_cancel_left_eq] at hback
      cases rest with
      | nil =>
          injection hback with hmark
          exact hne hmark
      | cons first rest =>
          injection hback with _ hsame
          exact hsince.unmarked last (by rw [← hsame]; simp) he

end Since

/-! ## Logs of runs -/

section Runs

variable {σ ε : Type*} {log : σ → List α} {step : σ → ε → σ}

/-- A step appends one entry to the log or none. -/
def Grows (log : σ → List α) (step : σ → ε → σ) : Prop :=
  ∀ s event, log (step s event) = log s ∨
    ∃ e, log (step s event) = log s ++ [e]

theorem Grows.prefix_run (hgrows : Grows log step) (s : σ) (events : List ε) :
    log s <+: log (events.foldl step s) := by
  induction events generalizing s with
  | nil => exact List.prefix_refl _
  | cons event events ih =>
      refine List.IsPrefix.trans ?_ (ih (step s event))
      rcases hgrows s event with hsame | ⟨e, hentry⟩
      · rw [hsame]
      · rw [hentry]
        exact List.prefix_append _ _

/-- The step that appended an entry, in the state whose log ends before it. -/
theorem Grows.entry (hgrows : Grows log step) {s : σ} (hstart : log s = [])
    {events : List ε} {front back : List α}
    (hlog : log (events.foldl step s) = front ++ e :: back) :
    ∃ earlier event later, events = earlier ++ event :: later ∧
      log (earlier.foldl step s) = front ∧
      log (step (earlier.foldl step s) event) = front ++ [e] := by
  induction events using List.reverseRecOn generalizing back with
  | nil => simp [hstart] at hlog
  | append_singleton events event ih =>
      have hextend {back : List α}
          (hearlier : log (events.foldl step s) = front ++ e :: back) :
          ∃ earlier event' later,
            events ++ [event] = earlier ++ event' :: later ∧
            log (earlier.foldl step s) = front ∧
            log (step (earlier.foldl step s) event') = front ++ [e] := by
        obtain ⟨earlier, event', later, rfl, hfront, hentry⟩ := ih hearlier
        exact ⟨earlier, event', later ++ [event], by simp, hfront, hentry⟩
      rw [List.foldl_append, List.foldl_cons, List.foldl_nil] at hlog
      rcases hgrows (events.foldl step s) event with hsame | ⟨e', hentry⟩
      · exact hextend (hsame ▸ hlog)
      · rcases List.eq_nil_or_concat back with rfl | ⟨rest, last, rfl⟩
        · have hsplit := hentry.symm.trans hlog
          obtain ⟨hfront, -⟩ := List.append_inj' hsplit rfl
          exact ⟨events, event, [], rfl, hfront, hlog⟩
        · have hsplit := hentry.symm.trans hlog
          rw [List.concat_eq_append, ← List.cons_append, ← List.append_assoc]
            at hsplit
          obtain ⟨hfront, -⟩ := List.append_inj' hsplit rfl
          exact hextend hfront

/-- Every front of a run's log is the log of a front of the run. -/
theorem Grows.exists_front (hgrows : Grows log step) {s : σ} (hstart : log s = [])
    {events : List ε} {front back : List α}
    (hlog : log (events.foldl step s) = front ++ back) :
    ∃ earlier later, events = earlier ++ later ∧
      log (earlier.foldl step s) = front := by
  rcases List.eq_nil_or_concat front with rfl | ⟨rest, e, rfl⟩
  · exact ⟨[], events, rfl, hstart⟩
  · rw [List.concat_eq_append, List.append_assoc, List.singleton_append] at hlog
    obtain ⟨earlier, event, later, rfl, -, hentry⟩ := hgrows.entry hstart hlog
    refine ⟨earlier ++ [event], later, by simp, ?_⟩
    rw [List.foldl_append, List.foldl_cons, List.foldl_nil, hentry,
      List.concat_eq_append]

end Runs

end History
end PicoFi
