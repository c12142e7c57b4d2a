import PicoFi.AddressClaim
import PicoFi.AddressFallback

/-!
# ARP frames are for the address the policy stands on

The driver reads the posted command whenever it is called.  Whatever it then
sends is for the latest candidate that no `Clear` or `Dhcp` has withdrawn, and
announces it only once it has been claimed.  A claim is announced at most
twice.
-/

namespace PicoFi
namespace AutoIp

open History

/-! ## Reading the log -/

abbrev LatestCandidate (log before : List Entry) (chosen : ℕ) (ip : Ipv4)
    (since : List Entry) : Prop :=
  Since Entry.Restarts log before (.action chosen (.candidate ip)) since

def Entry.Claims : Entry → Prop
  | .action _ (.claim _) => True
  | _ => False

def announceTimes (log : List Entry) : List ℕ :=
  log.filterMap fun
    | .action now .announce => some now
    | _ => none

theorem announceTimes_concat_announce (log : List Entry) (now : ℕ) :
    announceTimes (log ++ [.action now .announce]) =
      announceTimes log ++ [now] := by
  simp [announceTimes]

theorem announceTimes_concat {log : List Entry} {e : Entry}
    (he : ∀ now, e ≠ .action now .announce) :
    announceTimes (log ++ [e]) = announceTimes log := by
  rw [announceTimes, List.filterMap_append]
  cases e with
  | action now action =>
      cases action with
      | announce => exact absurd rfl (he now)
      | _ => simp [announceTimes]
  | _ => simp [announceTimes]

/-- At most two announcements, two seconds apart. -/
structure Spaced (times : List ℕ) : Prop where
  length_le : times.length ≤ 2
  pairwise : times.Pairwise fun t t' => t + 2000 ≤ t'

/-! ## What a device has announced -/

namespace Device

/-- The announcements since the latest claim, with those still to come. -/
structure Announced (d : Device) (since : List Entry) : Prop where
  spaced : Spaced (announceTimes since)
  past : ∀ t ∈ announceTimes since, t ≤ d.clock
  left : ∀ idle due remaining,
    d.policy.phase = .online true idle (some (due, remaining)) →
      (announceTimes since).length + remaining = 2 ∧ 0 < remaining ∧
        ∀ t ∈ announceTimes since, t + 2000 ≤ due

/-- The phase works on an address: it probes it or holds it. -/
def Working (phase : Phase) : Prop := phase.Probing ∨ phase.Fallback

structure TransmitInv (mac : Mac) (d : Device) : Prop where
  coherent : d.Coherent
  mac_eq : d.policy.mac = mac
  worked : Working d.policy.phase → ∃ before chosen since,
    LatestCandidate d.log before chosen d.policy.address since ∧
      (d.policy.phase.Fallback →
        ∃ claimed, .action claimed (.claim d.policy.address) ∈ since)
  announced : ∀ before claimed ip since,
    Since Entry.Claims d.log before (.action claimed (.claim ip)) since →
      d.Announced since

theorem Coherent.working {d : Device} (hcoherent : d.Coherent)
    (hcommand : d.probe.command ≠ 0) :
    Working d.policy.phase ∧ d.Armed ∧
      (d.probe.command = 2 → d.policy.phase.Fallback) := by
  have hphase := hcoherent.phase
  generalize d.policy.phase = phase at hphase ⊢
  cases phase with
  | probeDelay untilMs sent => exact absurd hphase.2.2.1 hcommand
  | claimDelay untilMs => exact absurd hphase.2.2 hcommand
  | probeTx untilMs sent =>
      refine ⟨.inl trivial, hphase.1, ?_⟩
      intro htwo
      rcases hphase.2.2.1 with h | h <;> rw [htwo] at h <;>
        exact absurd h (by decide)
  | online fallback idle announceAt =>
      cases fallback with
      | true => exact ⟨.inr trivial, hphase, fun _ => trivial⟩
      | false => exact absurd hphase.1.2.1 hcommand
  | _ => exact absurd hphase.2.1 hcommand

theorem TransmitInv.afterEntry {mac : Mac} {d d' : Device}
    (hinv : TransmitInv mac d) (hcoherent : d'.Coherent) {e : Entry}
    (hlog : d'.log = d.log ++ [e]) (hpolicy : d'.policy = d.policy)
    (hclock : d'.clock = d.clock)
    (hentry : ∀ now action, e ≠ .action now action) : TransmitInv mac d' := by
  have hrestarts : ¬e.Restarts := by
    cases e with
    | action now action => exact absurd rfl (hentry now action)
    | _ => exact id
  have hclaims : ¬e.Claims := by
    cases e with
    | action now action => exact absurd rfl (hentry now action)
    | _ => exact id
  constructor
  · exact hcoherent
  · rw [hpolicy]
    exact hinv.mac_eq
  · rw [hpolicy, hlog]
    intro hworking
    obtain ⟨before, chosen, since, hsince, hclaimed⟩ := hinv.worked hworking
    refine ⟨before, chosen, since ++ [e], hsince.concat hrestarts, ?_⟩
    intro hheld
    obtain ⟨claimed, hmem⟩ := hclaimed hheld
    exact ⟨claimed, by simp [hmem]⟩
  · rw [hlog]
    intro before claimed ip since hsince
    rcases hsince.of_concat with ⟨hmark, -⟩ | ⟨-, rest, rfl, hrest⟩
    · exact absurd hmark hclaims
    · have hannounced := hinv.announced before claimed ip rest hrest
      have htimes : announceTimes (rest ++ [e]) = announceTimes rest :=
        announceTimes_concat fun now => hentry now .announce
      constructor
      · rw [htimes]
        exact hannounced.spaced
      · rw [htimes, hclock]
        exact hannounced.past
      · rw [htimes, hpolicy]
        exact hannounced.left

theorem TransmitInv.ofStart (mac : Mac) : TransmitInv mac (start mac) := by
  constructor
  · exact start_coherent mac
  · rfl
  · rintro (hprobing | hheld)
    · exact absurd hprobing id
    · exact absurd hheld id
  · intro before claimed ip since hsince
    exact absurd hsince Since.not_nil

theorem TransmitInv.afterReceive {mac : Mac} {d : Device}
    (hinv : TransmitInv mac d) (frame : List UInt8) :
    TransmitInv mac (d.receiveStep frame) :=
  hinv.afterEntry (hinv.coherent.afterReceive frame) rfl rfl rfl (by simp)

theorem TransmitInv.afterService {mac : Mac} {d : Device}
    (hinv : TransmitInv mac d) (linkUp ready : Bool) :
    TransmitInv mac (d.serviceStep linkUp ready) := by
  have hcoherent := hinv.coherent.afterService linkUp ready
  rcases d.serviceStep_cases linkUp ready with
    hsame | ⟨-, -, hsent⟩ | ⟨-, hsent⟩
  · rwa [hsame]
  · rw [hsent] at hcoherent ⊢
    exact hinv.afterEntry hcoherent rfl rfl rfl (by simp)
  · rw [hsent] at hcoherent ⊢
    exact hinv.afterEntry hcoherent rfl rfl rfl (by simp)

/-! ## A pass of the policy -/

/-- What a pass does to the address it works on: a candidate begins the work,
a claim completes it. -/
theorem working_afterPass {d d' : Device} {elapsed : ℕ} {action : Action}
    (hpass : d.PolicyPass d' elapsed action)
    (hworking : Working d'.policy.phase) :
    ((∃ ip, action = .candidate ip) ∧ ¬d'.policy.phase.Fallback) ∨
      (Working d.policy.phase ∧
        ¬(Entry.action (d.clock + elapsed) action).Restarts ∧
        (d'.policy.phase.Fallback → d.policy.phase.Fallback ∨
          action = .claim d.policy.address)) := by
  have hmove := hpass.phase
  have hclaim := hpass.address.claim_eq
  generalize d'.policy.phase = new at hmove hworking ⊢
  generalize d.policy.phase = old at hmove ⊢
  cases hmove with
  | relinquish hnew => exact absurd hworking (Phase.not_working hnew)
  | keep _ => exact .inr ⟨hworking, id, .inl⟩
  | candidate _ => exact .inl ⟨⟨_, rfl⟩, id⟩
  | probe _ _ => exact .inr ⟨.inl trivial, id, fun h => absurd h id⟩
  | probeSent _ _ _ => exact .inr ⟨.inl trivial, id, fun h => absurd h id⟩
  | lastProbeSent _ _ _ => exact .inr ⟨.inl trivial, id, fun h => absurd h id⟩
  | claim _ _ =>
      rw [hclaim _ rfl]
      exact .inr ⟨.inl trivial, id, fun _ => .inr rfl⟩
  | fallback _ haction =>
      refine .inr ⟨.inr trivial, ?_, .inl⟩
      rcases haction with rfl | rfl | ⟨xid, rfl⟩ | rfl <;> exact id
  | _ => simp [Working, Phase.Probing, Phase.Fallback] at hworking

theorem TransmitInv.worked_afterPass {mac : Mac} {d d' : Device} {elapsed : ℕ}
    {action : Action} (hinv : TransmitInv mac d)
    (hpass : d.PolicyPass d' elapsed action)
    (hworking : Working d'.policy.phase) :
    ∃ before chosen since,
      LatestCandidate d'.log before chosen d'.policy.address since ∧
        (d'.policy.phase.Fallback →
          ∃ claimed, .action claimed (.claim d'.policy.address) ∈ since) := by
  rw [hpass.log_eq]
  rcases working_afterPass hpass hworking with
    ⟨⟨ip, rfl⟩, hnot⟩ | ⟨hold, hrestarts, hheld⟩
  · rw [(hpass.address.candidate_eq ip rfl).1]
    exact ⟨d.log, d.clock + elapsed, [], Since.afterMark d.log trivial,
      fun h => absurd h hnot⟩
  · have hkeep : ∀ ip, action ≠ .candidate ip := by
      rintro ip rfl
      exact hrestarts trivial
    obtain ⟨before, chosen, since, hsince, hclaimed⟩ := hinv.worked hold
    rw [hpass.address.address_eq hkeep]
    refine ⟨before, chosen, _, hsince.concat hrestarts, ?_⟩
    intro hnew
    rcases hheld hnew with hfallback | rfl
    · obtain ⟨claimed, hmem⟩ := hclaimed hfallback
      exact ⟨claimed, by simp [hmem]⟩
    · exact ⟨d.clock + elapsed, by simp⟩

/-- An announcement that is due comes two seconds after the one before it. -/
theorem Announced.afterAnnounce {d d' : Device} {now idle idle' due remaining : ℕ}
    {since : List Entry} (hannounced : d.Announced since)
    (hpast : d.clock ≤ now) (hclock : d'.clock = now)
    (hold : d.policy.phase = .online true idle (some (due, remaining)))
    (hdue : due ≤ now)
    (hnew : d'.policy.phase = .online true idle'
      (if 1 < remaining then some (now + 2000, remaining - 1) else none)) :
    d'.Announced (since ++ [.action now .announce]) := by
  obtain ⟨hcount, hpositive, hspaced⟩ := hannounced.left idle due remaining hold
  have hearlier : ∀ t ∈ announceTimes since ++ [now], t ≤ now := by
    intro t ht
    rcases List.mem_append.mp ht with h | h
    · exact (hannounced.past t h).trans hpast
    · rw [List.mem_singleton.mp h]
  constructor
  · rw [announceTimes_concat_announce]
    constructor
    · rw [List.length_append, List.length_singleton]
      omega
    · rw [List.pairwise_append]
      refine ⟨hannounced.spaced.pairwise, List.pairwise_singleton _ _, ?_⟩
      intro t ht t' ht'
      rw [List.mem_singleton.mp ht']
      exact (hspaced t ht).trans hdue
  · rw [announceTimes_concat_announce, hclock]
    exact hearlier
  · intro last due' remaining' hphase
    rw [hnew] at hphase
    injection hphase with _ _ hleft
    by_cases hmore : 1 < remaining
    · rw [if_pos hmore] at hleft
      cases hleft
      rw [announceTimes_concat_announce, List.length_append,
        List.length_singleton]
      refine ⟨by omega, by omega, ?_⟩
      intro t ht
      exact Nat.add_le_add_right (hearlier t ht) 2000
    · simp [if_neg hmore] at hleft

theorem Announced.afterOther {d d' : Device} {now : ℕ} {action : Action}
    {since : List Entry} (hannounced : d.Announced since)
    (hpast : d.clock ≤ now) (hclock : d'.clock = now)
    (haction : action ≠ .announce)
    (hleft : ∀ idle due remaining,
      d'.policy.phase = .online true idle (some (due, remaining)) →
        ∃ idle', d.policy.phase = .online true idle' (some (due, remaining))) :
    d'.Announced (since ++ [.action now action]) := by
  have htimes : announceTimes (since ++ [.action now action]) =
      announceTimes since := announceTimes_concat (by simp [haction])
  constructor
  · rw [htimes]
    exact hannounced.spaced
  · rw [htimes, hclock]
    intro t ht
    exact (hannounced.past t ht).trans hpast
  · rw [htimes]
    intro idle due remaining hphase
    obtain ⟨idle', hold⟩ := hleft idle due remaining hphase
    exact hannounced.left idle' due remaining hold

theorem Announced.afterPass {d d' : Device} {elapsed : ℕ} {connected : Bool}
    {action : Action} {since : List Entry} (hannounced : d.Announced since)
    (hpass : d.PolicyPass d' elapsed action)
    (hmove : FallbackMove (d.clock + elapsed) connected d.policy d'.policy action)
    (hclaim : ∀ ip, action ≠ .claim ip) :
    d'.Announced (since ++ [.action (d.clock + elapsed) action]) := by
  have hpast : d.clock ≤ d.clock + elapsed := Nat.le_add_right _ _
  have hclock := hpass.clock_eq
  cases hmove with
  | announce hold hdue hnew _ =>
      exact hannounced.afterAnnounce hpast hclock hold hdue hnew
  | claim _ _ _ => exact absurd rfl (hclaim _)
  | leave haction hnew =>
      apply hannounced.afterOther hpast hclock
      · rcases haction with rfl | rfl <;> simp
      · intro idle due remaining hphase
        simp [hphase, Phase.Fallback] at hnew
  | outside haction _ hnew =>
      apply hannounced.afterOther hpast hclock
      · rcases haction with rfl | rfl | ⟨ip, rfl⟩ <;> simp
      · intro idle due remaining hphase
        simp [hphase, Phase.Fallback] at hnew
  | stay hold hnew _ | ask hold hnew _ | stop hold hnew _ =>
      apply hannounced.afterOther hpast hclock
      · simp
      · intro idle due remaining hphase
        rw [hnew] at hphase
        injection hphase with _ _ hleft
        subst hleft
        exact ⟨_, hold⟩

theorem announced_afterClaim {d d' : Device} {elapsed : ℕ} {connected : Bool}
    {ip : Ipv4}
    (hmove : FallbackMove (d.clock + elapsed) connected d.policy d'.policy
      (.claim ip)) : d'.Announced [] := by
  constructor
  · exact ⟨by simp [announceTimes], List.Pairwise.nil⟩
  · simp [announceTimes]
  · intro idle due remaining hphase
    cases hmove with
    | leave haction _ => simp at haction
    | outside haction _ _ => simp at haction
    | claim _ hnew _ =>
        rw [hnew] at hphase
        cases hphase
        simp [announceTimes]

theorem TransmitInv.afterPolicy {mac : Mac} {d : Device}
    (hinv : TransmitInv mac d) (elapsed : ℕ) (link configured connected : Bool) :
    TransmitInv mac (d.policyStep elapsed link configured connected) := by
  have hcoherent := hinv.coherent.afterPolicy elapsed link configured connected
  have hpass := d.policyStep_action elapsed link configured connected
  have hmove :=
    hinv.coherent.policyStep_fallback elapsed link configured connected
  generalize d.policyStep elapsed link configured connected = d'
    at hpass hmove hcoherent ⊢
  generalize d.passAction elapsed link configured connected = action
    at hpass hmove
  constructor
  · exact hcoherent
  · rw [hpass.address.mac_eq]
    exact hinv.mac_eq
  · exact hinv.worked_afterPass hpass
  · rw [hpass.log_eq]
    intro before claimed ip since hsince
    rcases hsince.of_concat with
      ⟨-, hmark, rfl, rfl⟩ | ⟨hnot, rest, rfl, hrest⟩
    · injection hmark with _ haction
      subst haction
      exact announced_afterClaim hmove
    · refine (hinv.announced before claimed ip rest hrest).afterPass hpass hmove ?_
      rintro ip rfl
      exact hnot trivial

theorem TransmitInv.afterStep {mac : Mac} {d : Device} (hinv : TransmitInv mac d)
    (event : DeviceEvent) : TransmitInv mac (d.step event) := by
  cases event with
  | policy elapsed link configured connected =>
      exact hinv.afterPolicy elapsed link configured connected
  | service linkUp ready => exact hinv.afterService linkUp ready
  | receive frame => exact hinv.afterReceive frame

theorem transmitInv_run (mac : Mac) (events : List DeviceEvent) :
    TransmitInv mac (events.foldl step (start mac)) :=
  Runs.invariant (fun _ event hinv => hinv.afterStep event)
    (TransmitInv.ofStart mac) events

/-! ## What went to the driver -/

/-- An ARP frame is for the latest candidate, and announces a claimed one. -/
structure ArpHistory (mac : Mac) (log : List Entry) (frame : List UInt8)
    (before : List Entry) (chosen : ℕ) (ip : Ipv4) (since : List Entry)
    (announce : Bool) : Prop where
  frame_eq : frame = arpProbe mac ip announce
  latest : LatestCandidate log before chosen ip since
  claimed : announce = true → ∃ claimed, .action claimed (.claim ip) ∈ since

theorem TransmitInv.arpHistory {mac : Mac} {d : Device} (hinv : TransmitInv mac d)
    {event : DeviceEvent} {frame : List UInt8}
    (hsent : (d.step event).log = d.log ++ [.sent frame])
    (htype : etherType frame = [8, 6]) :
    ∃ before chosen ip since announce,
      ArpHistory mac d.log frame before chosen ip since announce := by
  cases event with
  | policy elapsed link configured connected =>
      simp [step, policyStep] at hsent
  | receive received => simp [step, receiveStep] at hsent
  | service linkUp ready =>
      rcases d.serviceStep_cases linkUp ready with
        hsame | ⟨hcommand, -, hserved⟩ | ⟨-, hserved⟩
      · simp [step, hsame] at hsent
      · obtain ⟨hworking, harmed, hannounce⟩ := hinv.coherent.working hcommand
        obtain ⟨before, chosen, since, hlatest, hclaimed⟩ := hinv.worked hworking
        simp only [step, hserved, List.append_cancel_left_eq, List.cons.injEq,
          Entry.sent.injEq, and_true] at hsent
        refine ⟨before, chosen, d.policy.address, since, d.probe.command == 2, ?_⟩
        constructor
        · rw [← hsent, harmed.1, hinv.coherent.mac_eq, hinv.mac_eq]
        · exact hlatest
        · intro htwo
          exact hclaimed (hannounce (beq_iff_eq.mp htwo))
      · simp only [step, hserved, List.append_cancel_left_eq, List.cons.injEq,
          Entry.sent.injEq, and_true] at hsent
        rw [← hsent, (DhcpProbe.discover_typed _ _).type_eq] at htype
        exact absurd htype (by decide)

/-- In every run a pending command is for the address of the policy, every ARP
frame that went to the driver is for the latest candidate still worked on, an
announcement for a claimed one, and no claim is announced more than twice or
faster than every two seconds. -/
theorem arp_frames_current (mac : Mac) (events : List DeviceEvent) :
    let d := events.foldl step (start mac)
    (d.probe.pending = true → d.probe.candidate ≠ Ipv4.zero ∧
      d.probe.candidate = d.policy.address) ∧
    (∀ front frame back, d.log = front ++ .sent frame :: back →
      etherType frame = [8, 6] → ∃ before chosen ip since announce,
        ArpHistory mac front frame before chosen ip since announce) ∧
    (∀ front claimed ip mid back,
      d.log = front ++ .action claimed (.claim ip) :: mid ++ back →
      (∀ e ∈ mid, ¬e.Claims) → Spaced (announceTimes mid)) := by
  refine ⟨?_, ?_, ?_⟩
  · intro hpending
    have hcommand : (events.foldl step (start mac)).probe.command ≠ 0 := by
      simpa [ProbeState.pending] using hpending
    obtain ⟨-, harmed, -⟩ :=
      (transmitInv_run mac events).coherent.working hcommand
    exact ⟨harmed.1 ▸ harmed.2, harmed.1⟩
  · intro front frame back hlog htype
    obtain ⟨earlier, event, later, -, hfront, hsent⟩ := log_grows.entry rfl hlog
    subst hfront
    exact (transmitInv_run mac earlier).arpHistory hsent htype
  · intro front claimed ip mid back hlog hmid
    obtain ⟨earlier, later, -, hfront⟩ := log_grows.exists_front rfl hlog
    have hsince : Since Entry.Claims (earlier.foldl step (start mac)).log front
        (.action claimed (.claim ip)) mid := ⟨hfront, trivial, hmid⟩
    exact ((transmitInv_run mac earlier).announced _ _ _ _ hsince).spaced

end Device

end AutoIp
end PicoFi
