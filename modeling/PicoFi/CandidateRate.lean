import PicoFi.PolicyTrace

/-!
# The rate of address conflicts

A retry that finds the attempt counter at a multiple of ten waits a minute
before the next candidate.  Ten retries lie between eleven candidates of one
acquisition and they find ten consecutive counter values, one of which is such
a multiple, also where the counter wraps around.
-/

namespace PicoFi
namespace AutoIp

/-! ## Moves of an acquisition -/

/-- No address is looked for and none is held. -/
def Phase.Idle : Phase → Prop
  | .down | .startDhcp => True
  | _ => False

/-- The phases between two candidates when no lease is asked for and nothing is
claimed. -/
def Phase.Acquiring : Phase → Prop
  | .down | .startDhcp | .choose _ => True
  | phase => phase.Probing

/-- What a retry adds to the time of the next candidate. -/
def retryPause (attempt : UInt32) : ℕ := if attempt % 10 = 0 then 60000 else 0

inductive AcquireMove (attempt : UInt32) (now : ℕ) :
    Phase → Action → Phase → Prop
  | idle {old new : Phase} {action : Action} (hnew : new.Idle)
      (haction : ∀ ip, action ≠ .candidate ip) :
      AcquireMove attempt now old action new
  | wait {after : ℕ} :
      AcquireMove attempt now (.choose after) .none (.choose after)
  | candidate {after : ℕ} {new : Phase} {ip : Ipv4} (hafter : after ≤ now)
      (hnew : new.Probing) :
      AcquireMove attempt now (.choose after) (.candidate ip) new
  | probing {old new : Phase} {action : Action} (hold : old.Probing)
      (hnew : new.Probing) (haction : ∀ ip, action ≠ .candidate ip) :
      AcquireMove attempt now old action new
  | retry {old : Phase} (hold : old.Probing) :
      AcquireMove attempt now old .clear (.choose (now + retryPause attempt))

theorem AcquireMove.keep {attempt : UInt32} {now : ℕ} {phase : Phase}
    (hphase : phase.Acquiring) : AcquireMove attempt now phase .none phase := by
  cases phase with
  | down | startDhcp => exact .idle trivial (by simp)
  | choose after => exact .wait
  | probeDelay _ _ | probeTx _ _ | claimDelay _ => exact .probing hphase hphase (by simp)
  | dhcp _ | online _ _ _ => exact absurd hphase id

theorem AcquireMove.acquiring {attempt : UInt32} {now : ℕ} {old new : Phase}
    {action : Action} (hmove : AcquireMove attempt now old action new) :
    new.Acquiring := by
  have hprobing (phase : Phase) (h : phase.Probing) : phase.Acquiring := by
    cases phase with
    | probeDelay _ _ | probeTx _ _ | claimDelay _ => trivial
    | _ => exact absurd h id
  cases hmove with
  | idle hnew _ =>
      cases new with
      | down | startDhcp => trivial
      | _ => exact absurd hnew id
  | wait | retry _ => trivial
  | candidate _ hnew => exact hprobing new hnew
  | probing _ hnew _ => exact hprobing new hnew

namespace AutoAddress

variable (p : AutoAddress) (now : ℕ)
variable (link configured connected pending conflict : Bool)

/-- Only a retry leads from a probed candidate to the choice of the next. -/
theorem tick_retry (hold : p.phase.Probing) {after : ℕ}
    (hnew : (p.tick now link configured connected pending conflict).1.phase =
      .choose after) :
    after = now + retryPause p.attempt := by
  have hretry (h : (p.retry now).1.phase = .choose after) :
      after = now + retryPause p.attempt := (Phase.choose.inj h).symm
  unfold tick at hnew
  cases hphase : p.phase with
  | probeDelay untilMs sent | probeTx untilMs sent | claimDelay untilMs =>
      simp only [hphase] at hnew
      repeat' split at hnew
      all_goals first
        | exact hretry hnew
        | simp [hphase] at hnew
  | _ =>
      rw [hphase] at hold
      exact absurd hold id

theorem tick_acquire (hold : p.phase.Acquiring)
    (hdhcp : (p.tick now link configured connected pending conflict).2 ≠ .dhcp)
    (hclaim : ∀ ip,
      (p.tick now link configured connected pending conflict).2 ≠ .claim ip) :
    AcquireMove p.attempt now p.phase
      (p.tick now link configured connected pending conflict).2
      (p.tick now link configured connected pending conflict).1.phase := by
  have hmove := p.tick_move now link configured connected pending conflict
  have hretry := p.tick_retry now link configured connected pending conflict
  generalize p.tick now link configured connected pending conflict = ticked
    at hdhcp hclaim hmove hretry ⊢
  generalize p.phase = old at hold hmove hretry ⊢
  generalize ticked.1.phase = new at hmove hretry ⊢
  generalize ticked.2 = action at hdhcp hclaim hmove ⊢
  cases hmove with
  | relinquish hnew => rcases hnew with rfl | rfl <;> exact .idle trivial (by simp)
  | keep _ => exact .keep hold
  | discover _ => exact absurd rfl hdhcp
  | claim _ _ => exact absurd rfl (hclaim _)
  | candidate hafter => exact .candidate hafter trivial
  | retry hprobing _ =>
      rw [hretry hprobing rfl]
      exact .retry hprobing
  | probe _ _ | probeSent _ _ _ | lastProbeSent _ _ _ =>
      exact .probing trivial trivial (by simp)
  | leased | leaseless _ | fallback _ _ | leaseHeld | leaseAnnounce _ =>
      exact absurd hold id

end AutoAddress

/-- A candidate is chosen when its time has come, and is probed from then on. -/
theorem Visit.IsCandidate.phases {visit : Visit} (hvisit : visit.IsCandidate) :
    (∃ after, visit.1.phase = .choose after ∧ after ≤ visit.now) ∧
      ∃ untilMs, visit.after.phase = .probeDelay untilMs 0 := by
  obtain ⟨p, call⟩ := visit
  obtain ⟨ip, hip⟩ := hvisit
  cases call with
  | tick now link configured connected pending conflict =>
      have hmove := p.tick_move now link configured connected pending conflict
      change (p.tick now link configured connected pending conflict).2 = _ at hip
      rw [hip] at hmove
      change (∃ after, p.phase = _ ∧ after ≤ now) ∧ ∃ untilMs,
        (p.tick now link configured connected pending conflict).1.phase = _
      generalize p.phase = old at hmove ⊢
      generalize (p.tick now link configured connected pending conflict).1.phase = new
        at hmove ⊢
      cases hmove with
      | candidate hafter => exact ⟨⟨_, rfl, hafter⟩, _, rfl⟩
      | fallback _ haction => simp at haction
      | leaseAnnounce haction => simp at haction
  | offered now =>
      change (p.dhcpOffered now).2 = _ at hip
      rcases p.dhcpOffered_cases now with hnone | ⟨-, -, -, hclear⟩
      · simp [hnone] at hip
      · simp [hclear] at hip

theorem Visit.acquire (visit : Visit) (hold : visit.1.phase.Acquiring)
    (hdhcp : visit.action ≠ .dhcp) (hclaim : ¬visit.IsClaim) :
    AcquireMove visit.1.attempt visit.now visit.1.phase visit.action
      visit.after.phase := by
  obtain ⟨p, call⟩ := visit
  cases call with
  | tick now link configured connected pending conflict =>
      exact p.tick_acquire now link configured connected pending conflict hold hdhcp
        fun ip hip => hclaim ⟨ip, hip⟩
  | offered now =>
      have hsame : p.dhcpOffered now = (p, .none) := by
        rw [AutoAddress.dhcpOffered]
        cases hphase : p.phase with
        | online fallback idle announceAt =>
            change p.phase.Acquiring at hold
            rw [hphase] at hold
            exact absurd hold id
        | _ => rfl
      simp only [Visit.action, Visit.after, Visit.now, AutoAddress.afterCall,
        AutoAddress.answer, Call.now, hsame]
      exact .keep hold

/-! ## Counting candidates -/

/-- One of the retries after the first `n` candidates found the counter at a
multiple of ten. -/
def Paused (attempt : UInt32) (n : ℕ) : Prop :=
  ∃ j, 1 ≤ j ∧ j ≤ n ∧ (attempt + UInt32.ofNat j) % 10 = 0

theorem Paused.succ_iff {attempt : UInt32} {n : ℕ} :
    Paused attempt (n + 1) ↔
      Paused attempt n ∨ (attempt + UInt32.ofNat (n + 1)) % 10 = 0 := by
  constructor
  · rintro ⟨j, hpos, hle, hmultiple⟩
    rcases Nat.lt_or_eq_of_le hle with hlt | rfl
    · exact .inl ⟨j, hpos, Nat.le_of_lt_succ hlt, hmultiple⟩
    · exact .inr hmultiple
  · rintro (⟨j, hpos, hle, hmultiple⟩ | hmultiple)
    · exact ⟨j, hpos, Nat.le_succ_of_le hle, hmultiple⟩
    · exact ⟨n + 1, Nat.succ_pos n, Nat.le_refl _, hmultiple⟩

/-- Zero is a multiple of ten as well, so the wrap does not stretch the ten. -/
theorem paused_ten (attempt : UInt32) : Paused attempt 10 := by
  have hlt := attempt.toNat_lt
  have hmultiple (j : ℕ) (hj : j ≤ 10)
      (h : (attempt.toNat + j) % 2 ^ 32 % 10 = 0) :
      (attempt + UInt32.ofNat j) % 10 = 0 := by
    apply UInt32.toNat_inj.mp
    rw [UInt32.toNat_mod, UInt32.toNat_add,
      UInt32.toNat_ofNat_of_lt' (Nat.lt_of_le_of_lt hj (by decide))]
    exact h
  by_cases hwrap : attempt.toNat + 10 < 2 ^ 32
  · refine ⟨10 - attempt.toNat % 10, by omega, by omega, hmultiple _ (by omega) ?_⟩
    have hsmall : attempt.toNat + (10 - attempt.toNat % 10) < 2 ^ 32 := by omega
    rw [Nat.mod_eq_of_lt hsmall]
    omega
  · refine ⟨2 ^ 32 - attempt.toNat, by omega, by omega, hmultiple _ (by omega) ?_⟩
    rw [Nat.add_sub_of_le hlt.le, Nat.mod_self]

def candidateCount (past : List Visit) : ℕ :=
  past.countP fun visit => decide visit.IsCandidate

theorem candidateCount_concat_candidate (past : List Visit) {visit : Visit}
    (hvisit : visit.IsCandidate) :
    candidateCount (past ++ [visit]) = candidateCount past + 1 := by
  simp [candidateCount, hvisit]

theorem candidateCount_concat (past : List Visit) {visit : Visit}
    (hvisit : ¬visit.IsCandidate) :
    candidateCount (past ++ [visit]) = candidateCount past := by
  simp [candidateCount, hvisit]

/-- An acquisition since its first candidate, made at `start` with the counter
at `attempt`: after a retry that paused, the next candidate is a minute away. -/
structure Acquisition (attempt : UInt32) (start : ℕ) (past : List Visit)
    (p : AutoAddress) : Prop where
  counted : ∃ n, candidateCount past = n + 1
  attempt_eq : p.attempt = attempt + UInt32.ofNat (candidateCount past)
  started : ∃ visit ∈ past, start ≤ visit.now
  acquiring : p.phase.Acquiring
  probing : p.phase.Probing → ∀ n, candidateCount past = n + 1 →
    Paused attempt n → ∃ visit ∈ past, start + 60000 ≤ visit.now
  choosing : ∀ after, p.phase = .choose after →
    Paused attempt (candidateCount past) → start + 60000 ≤ after

namespace Acquisition

theorem ofCandidate {first : Visit} (hfirst : first.IsCandidate) :
    Acquisition first.1.attempt first.now [first] first.after := by
  have hcount : candidateCount [first] = 1 := by simp [candidateCount, hfirst]
  obtain ⟨-, untilMs, hphase⟩ := hfirst.phases
  obtain ⟨ip, hip⟩ := hfirst
  constructor
  · exact ⟨0, hcount⟩
  · rw [hcount]
    exact ((first.1.answer_candidate first.2).candidate_eq ip hip).2
  · exact ⟨first, List.mem_singleton_self _, Nat.le_refl _⟩
  · rw [hphase]
    trivial
  · intro _ n hn hpaused
    obtain ⟨j, hpos, hle, -⟩ := hpaused
    omega
  · simp [hphase]

/-- A step with another action than a candidate leaves the count alone. -/
theorem afterOther {attempt : UInt32} {start : ℕ} {past : List Visit}
    {visit : Visit} (hheld : Acquisition attempt start past visit.1)
    (hother : ¬visit.IsCandidate) (hacquiring : visit.after.phase.Acquiring)
    (hprobing : visit.after.phase.Probing → visit.1.phase.Probing)
    (hchoosing : ∀ after, visit.after.phase = .choose after →
      Paused attempt (candidateCount past) → start + 60000 ≤ after) :
    Acquisition attempt start (past ++ [visit]) visit.after := by
  have hcount := candidateCount_concat past hother
  constructor
  · rw [hcount]
    exact hheld.counted
  · rw [hcount, ← hheld.attempt_eq]
    exact (visit.1.answer_candidate visit.2).attempt_eq
      fun ip hip => hother ⟨ip, hip⟩
  · obtain ⟨earlier, hmem, hle⟩ := hheld.started
    exact ⟨earlier, List.mem_append_left _ hmem, hle⟩
  · exact hacquiring
  · intro hphase n hn hpaused
    rw [hcount] at hn
    obtain ⟨earlier, hmem, hle⟩ := hheld.probing (hprobing hphase) n hn hpaused
    exact ⟨earlier, List.mem_append_left _ hmem, hle⟩
  · rw [hcount]
    exact hchoosing

theorem afterCandidate {attempt : UInt32} {start : ℕ} {past : List Visit}
    {visit : Visit} (hheld : Acquisition attempt start past visit.1)
    (hvisit : visit.IsCandidate) {after : ℕ} (hchoose : visit.1.phase = .choose after)
    (hafter : after ≤ visit.now) (hnew : visit.after.phase.Probing)
    (hacquiring : visit.after.phase.Acquiring) :
    Acquisition attempt start (past ++ [visit]) visit.after := by
  have hcount := candidateCount_concat_candidate past hvisit
  obtain ⟨ip, hip⟩ := hvisit
  constructor
  · exact ⟨_, hcount⟩
  · have hnext := ((visit.1.answer_candidate visit.2).candidate_eq ip hip).2
    rw [hheld.attempt_eq] at hnext
    rw [hcount, UInt32.ofNat_add, ← UInt32.add_assoc]
    exact hnext
  · obtain ⟨earlier, hmem, hle⟩ := hheld.started
    exact ⟨earlier, List.mem_append_left _ hmem, hle⟩
  · exact hacquiring
  · intro _ n hn hpaused
    obtain rfl : candidateCount past = n := by omega
    refine ⟨visit, List.mem_append_right _ (List.mem_singleton_self _), ?_⟩
    exact (hheld.choosing after hchoose hpaused).trans hafter
  · intro after' hafter'
    rw [hafter'] at hnew
    exact absurd hnew id

theorem afterVisit {attempt : UInt32} {start : ℕ} {past : List Visit}
    {visit : Visit} (hheld : Acquisition attempt start past visit.1)
    (hpast : ∀ earlier ∈ past, earlier.now ≤ visit.now)
    (hdhcp : visit.action ≠ .dhcp) (hclaim : ¬visit.IsClaim) :
    Acquisition attempt start (past ++ [visit]) visit.after := by
  have hmove := visit.acquire hheld.acquiring hdhcp hclaim
  have hacquiring := hmove.acquiring
  have hother (haction : ∀ ip, visit.action ≠ .candidate ip) : ¬visit.IsCandidate :=
    fun ⟨ip, hip⟩ => haction ip hip
  generalize hold : visit.1.phase = old at hmove
  generalize hphase : visit.after.phase = new at hmove
  generalize haction : visit.action = action at hmove
  cases hmove with
  | idle hnew hquiet =>
      have hnot : ¬new.Probing ∧ ∀ after, new ≠ .choose after := by
        cases new <;> first | exact absurd hnew id | exact ⟨id, by simp⟩
      refine hheld.afterOther (hother (haction ▸ hquiet)) hacquiring ?_ ?_
      · rw [hphase]
        exact fun h => absurd h hnot.1
      · rw [hphase]
        exact fun after h => absurd h (hnot.2 after)
  | wait =>
      refine hheld.afterOther (hother (by simp [haction])) hacquiring ?_ ?_
      · rw [hphase]
        exact fun h => absurd h id
      · rw [hphase, ← hold]
        exact hheld.choosing
  | candidate hafter hnew =>
      exact hheld.afterCandidate ⟨_, haction⟩ hold hafter (hphase ▸ hnew) hacquiring
  | probing hprobing hnew hquiet =>
      refine hheld.afterOther (hother (haction ▸ hquiet)) hacquiring ?_ ?_
      · rw [hold]
        exact fun _ => hprobing
      · rw [hphase]
        rintro after rfl
        exact absurd hnew id
  | retry hprobing =>
      refine hheld.afterOther (hother (by simp [haction])) hacquiring ?_ ?_
      · rw [hphase]
        exact fun h => absurd h id
      · intro after hafter hpaused
        rw [hphase] at hafter
        obtain rfl := Phase.choose.inj hafter
        obtain ⟨n, hn⟩ := hheld.counted
        rw [hn, Paused.succ_iff, ← hn, ← hheld.attempt_eq] at hpaused
        rcases hpaused with hearlier | hnow
        · obtain ⟨earlier, hmem, hle⟩ :=
            hheld.probing (by rw [hold]; exact hprobing) n hn hearlier
          exact (hle.trans (hpast earlier hmem)).trans (Nat.le_add_right _ _)
        · obtain ⟨earlier, hmem, hle⟩ := hheld.started
          rw [retryPause, if_pos hnow]
          exact Nat.add_le_add_right (hle.trans (hpast earlier hmem)) 60000

end Acquisition

/-- Eleven successive candidates without a claim or a DHCP attempt between them
take at least a minute. -/
theorem eleven_candidates_take_a_minute (p : AutoAddress) (calls : List Call)
    (hclock : Nondecreasing calls) (front middle back : List Visit)
    (first last : Visit)
    (htrace : policyTrace p calls = front ++ first :: (middle ++ last :: back))
    (hfirst : first.IsCandidate) (hlast : last.IsCandidate)
    (hcount : candidateCount middle = 9)
    (hquiet : ∀ visit ∈ middle, visit.action ≠ .dhcp ∧ ¬visit.IsClaim) :
    first.now + 60000 ≤ last.now := by
  obtain ⟨before, rest, -, -, -, hrest⟩ := Runs.trace_eq_append_cons htrace
  obtain ⟨between, rest', -, hmiddle, hstate, -⟩ := Runs.trace_eq_append_cons hrest
  have hheld : Acquisition first.1.attempt first.now ([first] ++ middle) last.1 := by
    rw [hstate, ← hmiddle]
    refine Runs.trace_invariant (Acquisition first.1.attempt first.now)
      (fun past p call => (∀ earlier ∈ past, Visit.now earlier ≤ call.now) ∧
        Visit.action (p, call) ≠ .dhcp ∧ ¬Visit.IsClaim (p, call)) ?_ ?_ ?_
    · intro past p call hheld hallowed
      exact hheld.afterVisit hallowed.1 hallowed.2.1 hallowed.2.2
    · exact Acquisition.ofCandidate hfirst
    · intro earlier q call later hcut
      rw [hmiddle] at hcut
      have hwhole : policyTrace p calls =
          (front ++ first :: earlier) ++ (q, call) :: (later ++ last :: back) := by
        rw [htrace, hcut]
        simp
      obtain ⟨hpast, -⟩ := hclock.le hwhole
      refine ⟨?_, hquiet (q, call) (by simp [hcut])⟩
      exact fun visit hvisit => hpast visit (List.mem_append_right front hvisit)
  obtain ⟨⟨after, hchoose, hafter⟩, -⟩ := hlast.phases
  have hten : candidateCount ([first] ++ middle) = 10 := by
    rw [candidateCount] at hcount
    simp [candidateCount, hcount, hfirst]
  exact (hheld.choosing after hchoose (hten ▸ paused_ten _)).trans hafter

/-- A peer that answers for every candidate. -/
def contestedCalls : List Call :=
  (List.range 10).flatMap fun i =>
    [.tick (10020 + 40 * i) true false false false true,
      .tick (10040 + 40 * i) true false false false false]

/-- The eleventh candidate waits. -/
theorem eleven_candidates_take_a_minute_contested :
    ∃ front first middle last,
      policyTrace (AutoAddress.new ⟨2, 1, 2, 3, 4, 5⟩)
          ([.tick 0 true false false false false, .tick 10000 true false false false false] ++
            .tick 10010 true false false false false ::
              (contestedCalls ++ [.tick 70380 true false false false false])) =
        front ++ first :: (middle ++ [last]) ∧
      first.IsCandidate ∧ last.IsCandidate ∧ candidateCount middle = 9 ∧
      first.now + 60000 ≤ last.now := by
  have htrace := policyTrace_window (AutoAddress.new ⟨2, 1, 2, 3, 4, 5⟩)
    [.tick 0 true false false false false, .tick 10000 true false false false false]
    contestedCalls [] (.tick 10010 true false false false false)
    (.tick 70380 true false false false false)
  refine ⟨_, _, _, _, htrace, by decide +kernel, by decide +kernel, by decide +kernel, ?_⟩
  exact eleven_candidates_take_a_minute _ _ (by decide) _ _ _ _ _ htrace (by decide +kernel)
    (by decide +kernel) (by decide +kernel) (by decide +kernel)

end AutoIp
end PicoFi
