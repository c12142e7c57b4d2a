import PicoFi.ArpGuard

/-!
# Claims rest on three probes nobody answered

The log of a device is read backwards from a claim: to the candidate it
claims, over the probes sent and the frames watched since, and to the last
DHCP attempt before it.  The invariant keeps this reading for every phase of
the policy; only the last phase before the claim has collected all of it.
-/

namespace PicoFi
namespace AutoIp

/-! ## Reading the log -/

def probeTimes (log : List Entry) : List ℕ :=
  log.filterMap fun
    | .action now .probe => some now
    | _ => none

def dhcpTimes (log : List Entry) : List ℕ :=
  log.filterMap fun
    | .action now .dhcp => some now
    | _ => none

/-- A `Candidate`, `Clear` or `Dhcp` action. -/
def Entry.Restarts : Entry → Prop
  | .action _ (.candidate _) | .action _ .clear | .action _ .dhcp => True
  | _ => False

theorem probeTimes_append (front back : List Entry) :
    probeTimes (front ++ back) = probeTimes front ++ probeTimes back :=
  List.filterMap_append

theorem dhcpTimes_append (front back : List Entry) :
    dhcpTimes (front ++ back) = dhcpTimes front ++ dhcpTimes back :=
  List.filterMap_append

theorem dhcpTimes_of_undisturbed {log : List Entry}
    (hlog : ∀ e ∈ log, ¬e.Restarts) : dhcpTimes log = [] := by
  refine List.filterMap_eq_nil_iff.mpr fun e he => ?_
  have hnot := hlog e he
  cases e with
  | action now action => cases action <;> first | rfl | exact absurd trivial hnot
  | _ => rfl

/-- The latest `Dhcp` action is at least ten seconds before this time. -/
def LeaseAsked (log : List Entry) (time : ℕ) : Prop :=
  ∃ asked, (dhcpTimes log).getLast? = some asked ∧ asked + 10000 ≤ time

theorem LeaseAsked.mono {log : List Entry} {time later : ℕ}
    (hasked : LeaseAsked log time) (hle : time ≤ later) :
    LeaseAsked log later := by
  obtain ⟨asked, hlast, htime⟩ := hasked
  exact ⟨asked, hlast, htime.trans hle⟩

theorem LeaseAsked.append {log extra : List Entry} {time : ℕ}
    (hasked : LeaseAsked log time) (hextra : dhcpTimes extra = []) :
    LeaseAsked (log ++ extra) time := by
  obtain ⟨asked, hlast, htime⟩ := hasked
  exact ⟨asked, by rw [dhcpTimes_append, hextra, List.append_nil, hlast], htime⟩

/-! ## The attempt on the current candidate -/

/-- What the log holds since the candidate the policy works on: the requested
probes, the number of probe frames sent, and no conflict unless the flag
says so. -/
structure Attempt (d : Device) (times : List ℕ) (frames : ℕ)
    (before mid : List Entry) (chosen : ℕ) : Prop where
  log_eq : d.log = before ++ .action chosen (.candidate d.policy.address) :: mid
  undisturbed : ∀ e ∈ mid, ¬e.Restarts
  asked : LeaseAsked before chosen
  chosen_le : chosen ≤ d.clock
  times_eq : probeTimes mid = times
  times_le : ∀ t ∈ times, t ≤ d.clock
  spaced : times.Pairwise fun t t' => t + (1000 + d.policy.mac.b4.toNat) ≤ t'
  frames_eq :
    mid.count (.sent (arpProbe d.policy.mac d.policy.address false)) = frames
  watched : d.probe.conflict = false → ∀ frame, .inspected frame ∈ mid →
    arpConflict frame d.policy.mac d.policy.address = false

def Attempted (d : Device) (requests frames : ℕ) (settle : ℕ → ℕ → Prop)
    (untilMs : ℕ) : Prop :=
  ∃ times before mid chosen, Attempt d times frames before mid chosen ∧
    times.length = requests ∧ ∀ t ∈ times, settle t untilMs

/-- The progress every phase of the policy rests on. -/
def Progress (d : Device) : Phase → Prop
  | .dhcp untilMs => LeaseAsked d.log untilMs
  | .choose after => LeaseAsked d.log after
  | .probeDelay untilMs sent =>
      Attempted d sent sent
        (fun t u => t + (1000 + d.policy.mac.b4.toNat) ≤ u) untilMs
  | .probeTx untilMs sent =>
      Attempted d (sent + 1) (if d.probe.command = 0 then sent + 1 else sent)
        (fun _ _ => True) untilMs
  | .claimDelay untilMs =>
      Attempted d 3 3
        (fun t u => t + (3000 + d.policy.mac.b4.toNat) ≤ u) untilMs
  | _ => True

theorem Attempt.afterEntry {d d' : Device} {times : List ℕ} {frames : ℕ}
    {before mid : List Entry} {chosen : ℕ}
    (hattempt : Attempt d times frames before mid chosen) {e : Entry}
    (hlog : d'.log = d.log ++ [e]) (hentry : ¬e.Restarts)
    (hmac : d'.policy.mac = d.policy.mac)
    (haddress : d'.policy.address = d.policy.address)
    (hclock : d.clock ≤ d'.clock)
    (hprobe : ∀ t ∈ probeTimes [e], t ≤ d'.clock ∧
      ∀ t' ∈ times, t' + (1000 + d.policy.mac.b4.toNat) ≤ t)
    (hconflict : d'.probe.conflict = false → d.probe.conflict = false ∧
      ∀ frame, e = .inspected frame →
        arpConflict frame d.policy.mac d.policy.address = false) :
    Attempt d' (times ++ probeTimes [e])
      (frames +
        [e].count (.sent (arpProbe d.policy.mac d.policy.address false)))
      before (mid ++ [e]) chosen where
  log_eq := by
    rw [hlog, hattempt.log_eq, haddress]
    simp
  undisturbed := by
    intro e' he'
    rcases List.mem_append.mp he' with h | h
    · exact hattempt.undisturbed e' h
    · rw [List.mem_singleton.mp h]
      exact hentry
  asked := hattempt.asked
  chosen_le := hattempt.chosen_le.trans hclock
  times_eq := by rw [probeTimes_append, hattempt.times_eq]
  times_le := by
    intro t ht
    rcases List.mem_append.mp ht with h | h
    · exact (hattempt.times_le t h).trans hclock
    · exact (hprobe t h).1
  spaced := by
    rw [hmac, List.pairwise_append]
    refine ⟨hattempt.spaced, ?_, fun t ht t' ht' => (hprobe t' ht').2 t ht⟩
    cases e with
    | action now action => cases action <;> simp [probeTimes]
    | _ => simp [probeTimes]
  frames_eq := by
    rw [hmac, haddress, List.count_append, hattempt.frames_eq]
  watched := by
    intro hclear frame hframe
    obtain ⟨hbefore, hnew⟩ := hconflict hclear
    rw [hmac, haddress]
    rcases List.mem_append.mp hframe with h | h
    · exact hattempt.watched hbefore frame h
    · exact hnew frame (List.mem_singleton.mp h).symm

theorem Attempt.leaseAsked {d : Device} {times : List ℕ} {frames : ℕ}
    {before mid : List Entry} {chosen : ℕ}
    (hattempt : Attempt d times frames before mid chosen) :
    LeaseAsked d.log d.clock := by
  have hmid : dhcpTimes (.action chosen (.candidate d.policy.address) :: mid) =
      [] := by
    change dhcpTimes mid = []
    exact dhcpTimes_of_undisturbed hattempt.undisturbed
  rw [hattempt.log_eq]
  exact (hattempt.asked.append hmid).mono hattempt.chosen_le

/-- What the log before a claim at `now` shows. -/
structure ClaimHistory (mac : Mac) (ip : Ipv4) (now : ℕ)
    (log before mid : List Entry) (chosen t₁ t₂ t₃ : ℕ) : Prop where
  log_eq : log = before ++ .action chosen (.candidate ip) :: mid
  undisturbed : ∀ e ∈ mid, ¬e.Restarts
  frames_eq : mid.count (.sent (arpProbe mac ip false)) = 3
  watched : ∀ frame, .inspected frame ∈ mid → arpConflict frame mac ip = false
  times_eq : probeTimes mid = [t₁, t₂, t₃]
  gap₁ : t₁ + (1000 + mac.b4.toNat) ≤ t₂
  gap₂ : t₂ + (1000 + mac.b4.toNat) ≤ t₃
  settled : t₃ + (3000 + mac.b4.toNat) ≤ now
  asked : LeaseAsked before chosen

/-- Every claim in the log has its history in front of it. -/
def ClaimsJustified (mac : Mac) (log : List Entry) : Prop :=
  ∀ front now ip back, log = front ++ .action now (.claim ip) :: back →
    ∃ before mid chosen t₁ t₂ t₃,
      ClaimHistory mac ip now front before mid chosen t₁ t₂ t₃

theorem ClaimsJustified.append {mac : Mac} {log : List Entry} {e : Entry}
    (hlog : ClaimsJustified mac log)
    (hentry : ∀ now ip, e = .action now (.claim ip) →
      ∃ before mid chosen t₁ t₂ t₃,
        ClaimHistory mac ip now log before mid chosen t₁ t₂ t₃) :
    ClaimsJustified mac (log ++ [e]) := by
  intro front now ip back heq
  rcases List.eq_nil_or_concat back with rfl | ⟨rest, last, rfl⟩
  · obtain ⟨rfl, he⟩ := List.append_inj' heq rfl
    exact hentry now ip (List.singleton_inj.mp he)
  · rw [List.concat_eq_append, ← List.cons_append, ← List.append_assoc] at heq
    obtain ⟨hfront, -⟩ := List.append_inj' heq rfl
    exact hlog front now ip rest hfront

theorem Attempt.claimHistory {d : Device} {times : List ℕ}
    {before mid : List Entry} {chosen now : ℕ}
    (hattempt : Attempt d times 3 before mid chosen) (hthree : times.length = 3)
    (hsettled : ∀ t ∈ times, t + (3000 + d.policy.mac.b4.toNat) ≤ now)
    (hconflict : d.probe.conflict = false) :
    ∃ t₁ t₂ t₃, ClaimHistory d.policy.mac d.policy.address now d.log before
      mid chosen t₁ t₂ t₃ := by
  obtain ⟨t₁, t₂, t₃, rfl⟩ := List.length_eq_three.mp hthree
  have hspaced := hattempt.spaced
  simp only [List.pairwise_cons, List.mem_cons, List.not_mem_nil, or_false]
    at hspaced
  exact ⟨t₁, t₂, t₃,
    { log_eq := hattempt.log_eq
      undisturbed := hattempt.undisturbed
      frames_eq := hattempt.frames_eq
      watched := hattempt.watched hconflict
      times_eq := hattempt.times_eq
      gap₁ := hspaced.1 t₂ (.inl rfl)
      gap₂ := hspaced.2.1 t₃ rfl
      settled := hsettled t₃ (by simp)
      asked := hattempt.asked }⟩

/-! ## One step -/

theorem Attempted.afterEntry {d d' : Device} {requests frames untilMs : ℕ}
    {settle : ℕ → ℕ → Prop}
    (hattempted : Attempted d requests frames settle untilMs) {e : Entry}
    (hlog : d'.log = d.log ++ [e]) (hentry : ¬e.Restarts)
    (hmac : d'.policy.mac = d.policy.mac)
    (haddress : d'.policy.address = d.policy.address)
    (hclock : d.clock ≤ d'.clock) (hprobe : probeTimes [e] = [])
    (hconflict : d'.probe.conflict = false → d.probe.conflict = false ∧
      ∀ frame, e = .inspected frame →
        arpConflict frame d.policy.mac d.policy.address = false) :
    Attempted d' requests
      (frames +
        [e].count (.sent (arpProbe d.policy.mac d.policy.address false)))
      settle untilMs := by
  obtain ⟨times, before, mid, chosen, hattempt, hcount, hsettle⟩ := hattempted
  have hnext := hattempt.afterEntry hlog hentry hmac haddress hclock
    (by simp [hprobe]) hconflict
  rw [hprobe, List.append_nil] at hnext
  exact ⟨times, before, mid ++ [e], chosen, hnext, hcount, hsettle⟩

theorem Attempt.afterPass {d d' : Device} {elapsed : ℕ} {action : Action}
    (hpass : d.PolicyPass d' elapsed action) {times : List ℕ} {frames : ℕ}
    {before mid : List Entry} {chosen : ℕ}
    (hattempt : Attempt d times frames before mid chosen)
    (hentry : ¬(Entry.action (d.clock + elapsed) action).Restarts)
    (hprobe : ∀ t ∈ probeTimes [.action (d.clock + elapsed) action],
      ∀ t' ∈ times, t' + (1000 + d.policy.mac.b4.toNat) ≤ t) :
    Attempt d'
      (times ++ probeTimes [.action (d.clock + elapsed) action]) frames
      before (mid ++ [.action (d.clock + elapsed) action]) chosen := by
  have hclock : d.clock ≤ d'.clock := by
    rw [hpass.clock_eq]
    exact Nat.le_add_right _ _
  have hkeep : ∀ ip, action ≠ .candidate ip := by
    rintro ip rfl
    exact hentry trivial
  have hconflict : d'.probe.conflict = d.probe.conflict := by
    rw [hpass.probe_eq]
    cases action <;> first | rfl | exact absurd trivial hentry
  have htimes : ∀ t ∈ probeTimes [.action (d.clock + elapsed) action],
      t ≤ d'.clock := by
    rw [hpass.clock_eq]
    cases action <;> simp [probeTimes]
  have hnext := hattempt.afterEntry hpass.log_eq hentry hpass.address.mac_eq
    (hpass.address.address_eq hkeep) hclock
    (fun t ht => ⟨htimes t ht, hprobe t ht⟩)
    (fun hclear => ⟨by rwa [hconflict] at hclear, by simp⟩)
  simpa using hnext

theorem Attempted.afterPass {d d' : Device} {elapsed : ℕ} {action : Action}
    (hpass : d.PolicyPass d' elapsed action)
    {requests frames untilMs untilMs' : ℕ} {settle settle' : ℕ → ℕ → Prop}
    (hattempted : Attempted d requests frames settle untilMs)
    (haction : action = .none)
    (hsettle : ∀ t, t ≤ d.clock → settle t untilMs → settle' t untilMs') :
    Attempted d' requests frames settle' untilMs' := by
  subst haction
  obtain ⟨times, before, mid, chosen, hattempt, hcount, hsettled⟩ := hattempted
  have hnext := hattempt.afterPass hpass id (by simp [probeTimes])
  have hnone : probeTimes [.action (d.clock + elapsed) .none] = [] := rfl
  rw [hnone, List.append_nil] at hnext
  exact ⟨times, before, _, chosen, hnext, hcount, fun t ht =>
    hsettle t (hattempt.times_le t ht) (hsettled t ht)⟩

theorem Progress.leaseAsked {d : Device} {phase : Phase}
    (hprogress : Progress d phase) (hprobing : phase.Probing) :
    LeaseAsked d.log d.clock := by
  cases phase with
  | probeDelay untilMs sent =>
      obtain ⟨_, _, _, _, hattempt, -⟩ := hprogress
      exact hattempt.leaseAsked
  | probeTx untilMs sent =>
      obtain ⟨_, _, _, _, hattempt, -⟩ := hprogress
      exact hattempt.leaseAsked
  | claimDelay untilMs =>
      obtain ⟨_, _, _, _, hattempt, -⟩ := hprogress
      exact hattempt.leaseAsked
  | _ => exact absurd hprobing id

theorem progress_afterPass {d d' : Device} {elapsed : ℕ} {action : Action}
    (hcoherent : d.Coherent) (hprogress : Progress d d.policy.phase)
    (hpass : d.PolicyPass d' elapsed action) :
    Progress d' d'.policy.phase := by
  have hphase := hcoherent.phase
  have hmove := hpass.phase
  have hmac := hpass.address.mac_eq
  have hlog := hpass.log_eq
  have hprobe := hpass.probe_eq
  have hclock := hpass.clock_eq
  have hle : d.clock ≤ d.clock + elapsed := Nat.le_add_right _ _
  generalize d'.policy.phase = new at hmove ⊢
  generalize d.policy.phase = old at hmove hphase hprogress
  cases hmove with
  | relinquish hnew => rcases hnew with rfl | rfl <;> trivial
  | keep _ =>
      cases new with
      | dhcp untilMs =>
          simp only [Progress, hlog] at hprogress ⊢
          exact hprogress.append rfl
      | choose after =>
          simp only [Progress, hlog] at hprogress ⊢
          exact hprogress.append rfl
      | probeDelay untilMs sent =>
          simp only [Progress, hmac] at hprogress ⊢
          exact hprogress.afterPass hpass rfl fun _ _ h => h
      | probeTx untilMs sent =>
          have hcommand : d'.probe.command = d.probe.command := by
            rw [hprobe]
            rfl
          simp only [Progress, hcommand] at hprogress ⊢
          exact hprogress.afterPass hpass rfl fun _ _ h => h
      | claimDelay untilMs =>
          simp only [Progress, hmac] at hprogress ⊢
          exact hprogress.afterPass hpass rfl fun _ _ h => h
      | _ => trivial
  | discover _ =>
      simp only [Progress, hlog]
      refine ⟨d.clock + elapsed, ?_, Nat.le_refl _⟩
      rw [dhcpTimes_append]
      exact List.getLast?_concat
  | leased => trivial
  | leaseless huntil =>
      simp only [Progress, hlog] at hprogress ⊢
      exact (hprogress.append rfl).mono huntil
  | candidate hafter =>
      obtain ⟨haddress, -⟩ := hpass.address.candidate_eq _ rfl
      simp only [Progress] at hprogress ⊢
      exact ⟨[], d.log, [], d.clock + elapsed,
        { log_eq := by rw [hlog, haddress]
          undisturbed := by simp
          asked := hprogress.mono hafter
          chosen_le := by rw [hclock]
          times_eq := rfl
          times_le := by simp
          spaced := .nil
          frames_eq := rfl
          watched := by simp }, rfl, by simp⟩
  | retry hold hafter =>
      simp only [Progress, hlog]
      exact ((hprogress.leaseAsked hold).append rfl).mono (hle.trans hafter)
  | probe huntil _ =>
      obtain ⟨times, before, mid, chosen, hattempt, hcount, hsettled⟩ :=
        hprogress
      have hnow : probeTimes [.action (d.clock + elapsed) .probe] =
          [d.clock + elapsed] := rfl
      have hnext := hattempt.afterPass hpass id (by
        rw [hnow]
        intro t ht t' ht'
        rw [List.mem_singleton.mp ht]
        exact (hsettled t' ht').trans huntil)
      rw [hnow] at hnext
      have hcommand : d'.probe.command = 1 := by
        rw [hprobe]
        rfl
      simp only [Progress, hcommand]
      exact ⟨_, before, _, chosen, hnext, by simp [hcount],
        fun _ _ => trivial⟩
  | probeSent hpending _ _ =>
      have hcommand : d.probe.command = 0 := by
        simpa [ProbeState.pending] using hpending
      simp only [Progress, hcommand, hmac, if_true] at hprogress ⊢
      exact hprogress.afterPass hpass rfl fun t ht _ => by omega
  | lastProbeSent hpending _ hthree =>
      have hcommand : d.probe.command = 0 := by
        simpa [ProbeState.pending] using hpending
      simp only [Progress, hcommand, hmac, if_true, hthree] at hprogress ⊢
      exact hprogress.afterPass hpass rfl fun t ht _ => by omega
  | claim _ _ => trivial
  | fallback _ _ => trivial
  | leaseHeld => trivial
  | leaseAnnounce _ => trivial

structure ClaimInv (mac : Mac) (d : Device) : Prop where
  coherent : d.Coherent
  mac_eq : d.policy.mac = mac
  progress : Progress d d.policy.phase
  claims : ClaimsJustified mac d.log

namespace ClaimInv

variable {mac : Mac} {d : Device}

theorem ofStart (mac : Mac) : ClaimInv mac (Device.start mac) where
  coherent := Device.start_coherent mac
  mac_eq := rfl
  progress := trivial
  claims := by
    intro front now ip back hlog
    simp [Device.start] at hlog

theorem afterReceive (hinv : ClaimInv mac d) (frame : List UInt8) :
    ClaimInv mac (d.receiveStep frame) where
  coherent := hinv.coherent.afterReceive frame
  mac_eq := hinv.mac_eq
  claims := hinv.claims.append (by simp)
  progress := by
    have hphase := hinv.coherent.phase
    have hprogress := hinv.progress
    have hextend : ∀ {requests frames untilMs : ℕ} {settle : ℕ → ℕ → Prop},
        d.Armed → Attempted d requests frames settle untilMs →
          Attempted (d.receiveStep frame) requests frames settle untilMs := by
      intro requests frames untilMs settle harmed hattempted
      refine hattempted.afterEntry (e := .inspected frame) rfl id rfl rfl
        (Nat.le_refl _) rfl ?_
      intro hclear
      have hmac := hinv.coherent.mac_eq
      simp only [Device.receiveStep, ProbeState.inspect, Bool.or_eq_false_iff]
        at hclear
      refine ⟨hclear.1, ?_⟩
      rintro _ ⟨rfl⟩
      have hboth := hclear.2
      rw [harmed.1, hmac] at hboth
      simpa [harmed.2] using hboth
    change Progress (d.receiveStep frame) d.policy.phase
    generalize d.policy.phase = phase at hphase hprogress ⊢
    cases phase with
    | dhcp untilMs => exact LeaseAsked.append hprogress rfl
    | choose after => exact LeaseAsked.append hprogress rfl
    | probeDelay untilMs sent => exact hextend hphase.1 hprogress
    | probeTx untilMs sent =>
        simp only [Progress] at hprogress ⊢
        exact hextend hphase.1 hprogress
    | claimDelay untilMs => exact hextend hphase.1 hprogress
    | _ => trivial

/-- The one frame the guard may send while a candidate is probed is the
requested probe. -/
theorem afterService (hinv : ClaimInv mac d) (linkUp ready : Bool) :
    ClaimInv mac (d.serviceStep linkUp ready) := by
  have hphase := hinv.coherent.phase
  have hprogress := hinv.progress
  have hcoherent := hinv.coherent.afterService linkUp ready
  rcases d.serviceStep_cases linkUp ready with
    hsame | ⟨hcommand, hcandidate, hsent⟩ | ⟨hpending, hsent⟩
  · rwa [hsame]
  · rw [hsent] at hcoherent ⊢
    refine ⟨hcoherent, hinv.mac_eq, ?_, hinv.claims.append (by simp)⟩
    generalize hd' : ({ d with
      probe := { d.probe with command := 0 }
      log := d.log ++ [.sent (arpProbe d.probe.mac d.probe.candidate
        (d.probe.command == 2))] } : Device) = d'
    have hpolicy : d'.policy = d.policy := by rw [← hd']
    have hprobe : d'.probe.command = 0 := by rw [← hd']
    rw [hpolicy]
    generalize hold : d.policy.phase = phase at hphase hprogress ⊢
    cases phase with
    | probeTx untilMs sent =>
        have hone : d.probe.command = 1 := hphase.2.2.1.resolve_left hcommand
        have hframe : d'.log = d.log ++
            [.sent (arpProbe d.policy.mac d.policy.address false)] := by
          rw [← hd', hphase.1.1, hinv.coherent.mac_eq, hone]
          rfl
        have hattempted : Attempted d (sent + 1) sent (fun _ _ => True)
            untilMs := by
          simpa [Progress, hone] using hprogress
        have hnext := hattempted.afterEntry hframe id
          (by rw [hpolicy]) (by rw [hpolicy]) (by rw [← hd']) rfl
          (by
            intro hclear
            refine ⟨?_, by simp⟩
            rw [← hd'] at hclear
            exact hclear)
        simpa [Progress, hone, hprobe] using hnext
    | probeDelay untilMs sent => exact absurd hphase.2.2.1 hcommand
    | claimDelay untilMs => exact absurd hphase.2.2 hcommand
    | dhcp untilMs => exact absurd hphase.1 hcandidate
    | choose after => exact absurd hphase.1 hcandidate
    | _ => trivial
  · rw [hsent] at hcoherent ⊢
    refine ⟨hcoherent, hinv.mac_eq, ?_, hinv.claims.append (by simp)⟩
    change Progress _ d.policy.phase
    generalize d.policy.phase = phase at hphase ⊢
    cases phase with
    | probeTx untilMs sent => simp [hphase.2.1] at hpending
    | probeDelay untilMs sent => simp [hphase.2.1] at hpending
    | claimDelay untilMs => simp [hphase.2.1] at hpending
    | dhcp untilMs => simp [hphase.2.2] at hpending
    | choose after => simp [hphase.2.2] at hpending
    | _ => trivial

theorem afterPolicy (hinv : ClaimInv mac d) (elapsed : ℕ)
    (link configured connected : Bool) :
    ClaimInv mac (d.policyStep elapsed link configured connected) := by
  have hcoherent := hinv.coherent.afterPolicy elapsed link configured connected
  obtain ⟨action, hpass⟩ := d.policyStep_pass elapsed link configured connected
  generalize d.policyStep elapsed link configured connected = d'
    at hpass hcoherent ⊢
  refine ⟨hcoherent, by rw [hpass.address.mac_eq, hinv.mac_eq],
    progress_afterPass hinv.coherent hinv.progress hpass, ?_⟩
  rw [hpass.log_eq]
  refine hinv.claims.append ?_
  rintro now ip ⟨⟩
  have hip := hpass.address.claim_eq ip rfl
  have hmove := hpass.phase
  have hprogress := hinv.progress
  generalize d'.policy.phase = new at hmove
  generalize d.policy.phase = old at hmove hprogress
  cases hmove with
  | claim huntil hconflict =>
      obtain ⟨times, before, mid, chosen, hattempt, hthree, hsettled⟩ :=
        hprogress
      obtain ⟨t₁, t₂, t₃, hhistory⟩ := hattempt.claimHistory hthree
        (fun t ht => (hsettled t ht).trans huntil) hconflict
      rw [hinv.mac_eq, ← hip] at hhistory
      exact ⟨before, mid, chosen, t₁, t₂, t₃, hhistory⟩
  | fallback _ haction => simp at haction
  | leaseAnnounce haction => simp at haction

theorem afterStep (hinv : ClaimInv mac d) (event : DeviceEvent) :
    ClaimInv mac (d.step event) := by
  cases event with
  | policy elapsed link configured connected =>
      exact hinv.afterPolicy elapsed link configured connected
  | service linkUp ready => exact hinv.afterService linkUp ready
  | receive frame => exact hinv.afterReceive frame

end ClaimInv

/-- Every claim in every run of a device is for its latest candidate: no
`Candidate`, `Clear` or `Dhcp` action came after it, exactly three probes for
the address went to the driver, no frame watched since conflicts with it, the
probe requests and the claim kept their distances, and DHCP had been asked
ten seconds before. -/
theorem claim_has_history (mac : Mac) (events : List DeviceEvent)
    (front back : List Entry) (now : ℕ) (ip : Ipv4)
    (hlog : (events.foldl Device.step (Device.start mac)).log =
      front ++ .action now (.claim ip) :: back) :
    ∃ before mid chosen t₁ t₂ t₃,
      ClaimHistory mac ip now front before mid chosen t₁ t₂ t₃ := by
  have hinv : ClaimInv mac (events.foldl Device.step (Device.start mac)) :=
    Runs.invariant (fun _ event hinv => hinv.afterStep event)
      (ClaimInv.ofStart mac) events
  exact hinv.claims front now ip back hlog

def leaselessRun : List DeviceEvent :=
  [.policy 0 true false false, .policy 10000 true false false,
    .policy 20 true false false, .policy 15 true false false,
    .service true true, .policy 20 true false false,
    .policy 1004 true false false, .service true true,
    .policy 20 true false false, .policy 1004 true false false,
    .service true true, .policy 20 true false false,
    .policy 3004 true false false]

theorem claim_has_history_leaseless :
    ∃ before mid chosen t₁ t₂ t₃,
      ClaimHistory ⟨2, 1, 2, 3, 4, 5⟩
        (linkLocalCandidate ⟨2, 1, 2, 3, 4, 5⟩ 0) 15107
        (leaselessRun.foldl Device.step
          (Device.start ⟨2, 1, 2, 3, 4, 5⟩)).log.dropLast
        before mid chosen t₁ t₂ t₃ :=
  claim_has_history ⟨2, 1, 2, 3, 4, 5⟩ leaselessRun _ [] 15107 _ (by decide)

end AutoIp
end PicoFi
