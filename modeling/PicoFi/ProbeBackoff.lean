import PicoFi.AddressFallback
import PicoFi.PolicyTrace
import Mathlib.Data.List.DropRight

/-!
# Back-off of DHCP checks

A fallback address is checked for a DHCP server now and then.  An offer that
interrupts the session and leads to no lease doubles the distance of the checks,
up to sixteen times the first.  The counter of such offers is read off the trace
since the last lease, and the time of the next check keeps its distance from
every check made so far.
-/

namespace PicoFi
namespace AutoIp

/-! ## What the trace shows of DHCP -/

namespace Visit

def IsDhcpProbe (visit : Visit) : Prop := ∃ xid, visit.action = .dhcpProbe xid

instance (visit : Visit) : Decidable visit.IsDhcpProbe :=
  match h : visit.action with
  | .dhcpProbe xid => isTrue ⟨xid, h⟩
  | .none | .clear | .dhcp | .candidate _ | .probe | .claim _ | .announce
  | .stopDhcpProbe => isFalse (by simp [IsDhcpProbe, h])

/-- An offer that interrupts the session. -/
def accepted (visit : Visit) : Bool :=
  match visit.2 with
  | .offered _ => decide (visit.action = .clear)
  | .tick .. => false

/-- A tick that sees DHCP succeed. -/
def sawLease (visit : Visit) : Bool :=
  match visit.1.phase, visit.2 with
  | .dhcp _, .tick _ link configured _ _ _ => link && configured
  | _, _ => false

/-- A tick that gives DHCP up. -/
def timedOut (visit : Visit) : Bool :=
  match visit.1.phase, visit.2 with
  | .dhcp _, .tick _ link _ _ _ _ => link && decide (visit.action = .clear)
  | _, _ => false

theorem accepted_eq_false {visit : Visit} (htimed : visit.timedOut = true) :
    visit.accepted = false := by
  obtain ⟨p, call⟩ := visit
  cases call with
  | tick => rfl
  | offered now =>
      simp only [timedOut] at htimed
      split at htimed
      · simp_all
      · simp at htimed

end Visit

/-- The part of a trace after the last lease. -/
def sinceLease (past : List Visit) : List Visit :=
  past.rtakeWhile fun visit => !visit.sawLease

theorem sinceLease_concat_lease (past : List Visit) {visit : Visit}
    (hsaw : visit.sawLease = true) : sinceLease (past ++ [visit]) = [] :=
  List.rtakeWhile_concat_neg _ _ _ (by simp [hsaw])

theorem sinceLease_concat (past : List Visit) {visit : Visit}
    (hsaw : visit.sawLease = false) :
    sinceLease (past ++ [visit]) = sinceLease past ++ [visit] :=
  List.rtakeWhile_concat_pos _ _ _ (by simp [hsaw])

/-- The offers taken up that a DHCP timeout followed. -/
def followedOffers : List Visit → ℕ
  | [] => 0
  | visit :: later =>
      (if visit.accepted && later.any Visit.timedOut then 1 else 0) +
        followedOffers later

theorem followedOffers_concat_timedOut {past : List Visit} {visit : Visit}
    (htimed : visit.timedOut = true) :
    followedOffers (past ++ [visit]) = past.countP Visit.accepted := by
  induction past with
  | nil => simp [followedOffers]
  | cons first past ih =>
      rw [List.cons_append, followedOffers, ih, List.countP_cons, Nat.add_comm]
      simp [htimed]

theorem followedOffers_concat {past : List Visit} {visit : Visit}
    (htimed : visit.timedOut = false) :
    followedOffers (past ++ [visit]) = followedOffers past := by
  induction past with
  | nil => simp [followedOffers]
  | cons first past ih =>
      have hany : (past ++ [visit]).any Visit.timedOut = past.any Visit.timedOut := by
        simp [htimed]
      rw [List.cons_append, followedOffers, ih, hany, followedOffers]

/-- The offers since the last lease that were followed by a DHCP timeout. -/
def failedOffers (past : List Visit) : ℕ := followedOffers (sinceLease past)

theorem failedOffers_concat (past : List Visit) {visit : Visit}
    (hsaw : visit.sawLease = false) (htimed : visit.timedOut = false) :
    failedOffers (past ++ [visit]) = failedOffers past := by
  rw [failedOffers, sinceLease_concat past hsaw, followedOffers_concat htimed, failedOffers]

/-! ## Moves of the back-off -/

/-- DHCP is asked for, or will be as soon as the link is up. -/
def Phase.Settling : Phase → Prop
  | .down | .startDhcp | .dhcp _ => True
  | _ => False

theorem Phase.Settling.not_fallback {phase : Phase} (hphase : phase.Settling) :
    ¬phase.Fallback := by
  cases phase with
  | down | startDhcp | dhcp _ => exact id
  | _ => exact absurd hphase id

/-- The failure counter and its flag change with a lease, with a DHCP timeout
and with an offer that is taken up. -/
inductive CounterMove (visit : Visit) : Prop
  | lease (hsaw : visit.sawLease = true)
      (hmigrating : visit.after.migrating = false)
      (hfailed : visit.after.failedMigrations = 0)
      (hphase : ¬visit.after.phase.Fallback)
  | timeout (hsaw : visit.sawLease = false) (htimed : visit.timedOut = true)
      (hmigrating : visit.after.migrating = false)
      (hfailed : visit.after.failedMigrations =
        if visit.1.migrating then min (visit.1.failedMigrations + 1) 255
        else visit.1.failedMigrations)
      (hphase : ¬visit.after.phase.Fallback)
  | accept (hsaw : visit.sawLease = false) (htimed : visit.timedOut = false)
      (haccepted : visit.accepted = true) (hold : visit.1.phase.Fallback)
      (hmigrating : visit.after.migrating = true)
      (hfailed : visit.after.failedMigrations = visit.1.failedMigrations)
      (hphase : visit.after.phase.Settling)
  | keep (hsaw : visit.sawLease = false) (htimed : visit.timedOut = false)
      (haccepted : visit.accepted = false)
      (hmigrating : visit.after.migrating = visit.1.migrating)
      (hfailed : visit.after.failedMigrations = visit.1.failedMigrations)
      (hphase : visit.1.phase.Settling → visit.after.phase.Settling)

namespace AutoAddress

variable (p : AutoAddress) (now : ℕ)
variable (link configured connected pending conflict : Bool)

theorem tick_counters (hphase : ∀ untilMs, p.phase ≠ .dhcp untilMs) :
    (p.tick now link configured connected pending conflict).1.migrating =
        p.migrating ∧
      (p.tick now link configured connected pending conflict).1.failedMigrations =
        p.failedMigrations := by
  unfold tick
  cases hold : p.phase with
  | dhcp untilMs => exact absurd hold (hphase untilMs)
  | online fallback idleSince announceAt =>
      simp only [tickOnline, checkDhcp]
      generalize (if connected = true then now else idleSince) = idle
      repeat' split
      all_goals exact ⟨rfl, rfl⟩
  | _ =>
      simp only [retry]
      repeat' split
      all_goals exact ⟨rfl, rfl⟩

theorem tick_settling (hold : p.phase = .down ∨ p.phase = .startDhcp) :
    (p.tick now link configured connected pending conflict).1.phase.Settling := by
  unfold tick
  rcases hold with hphase | hphase <;> rw [hphase] <;> cases link <;>
    simp [hphase, Phase.Settling]

theorem tick_counterMove :
    CounterMove (p, .tick now link configured connected pending conflict) := by
  have hafter : Visit.after (p, .tick now link configured connected pending conflict) =
      (p.tick now link configured connected pending conflict).1 := rfl
  have haction : Visit.action (p, .tick now link configured connected pending conflict) =
      (p.tick now link configured connected pending conflict).2 := rfl
  by_cases hdhcp : ∃ untilMs, p.phase = .dhcp untilMs
  · obtain ⟨untilMs, hphase⟩ := hdhcp
    cases link with
    | false =>
        apply CounterMove.keep <;>
          simp [Visit.sawLease, Visit.timedOut, Visit.accepted, hafter, hphase, tick,
            Phase.Settling]
    | true =>
        cases configured with
        | true =>
            apply CounterMove.lease <;>
              simp [Visit.sawLease, hafter, hphase, tick, Phase.Fallback]
        | false =>
            by_cases huntil : untilMs ≤ now
            · apply CounterMove.timeout <;>
                simp [Visit.sawLease, Visit.timedOut, haction, hafter, hphase, tick, huntil,
                  Phase.Fallback]
            · apply CounterMove.keep <;>
                simp [Visit.sawLease, Visit.timedOut, Visit.accepted, haction, hafter,
                  hphase, tick, huntil]
  · have hphase : ∀ untilMs, p.phase ≠ .dhcp untilMs := not_exists.mp hdhcp
    obtain ⟨hmigrating, hfailed⟩ :=
      p.tick_counters now link configured connected pending conflict hphase
    refine .keep ?_ ?_ rfl hmigrating hfailed ?_
    · simp only [Visit.sawLease]
      split
      · exact absurd ‹_› (hphase _)
      · rfl
    · simp only [Visit.timedOut]
      split
      · exact absurd ‹_› (hphase _)
      · rfl
    · intro hsettling
      rw [hafter]
      cases hold : p.phase with
      | down | startDhcp =>
          exact p.tick_settling now link configured connected pending conflict
            (by simp [hold])
      | dhcp untilMs => exact absurd hold (hphase untilMs)
      | _ =>
          simp only [hold] at hsettling
          exact absurd hsettling id

theorem offered_counterMove : CounterMove (p, .offered now) := by
  have hafter : Visit.after (p, .offered now) = (p.dhcpOffered now).1 := rfl
  have hsaw : Visit.sawLease (p, .offered now) = false := by
    cases hphase : p.phase <;> simp [Visit.sawLease, hphase]
  have htimed : Visit.timedOut (p, .offered now) = false := by
    cases hphase : p.phase <;> simp [Visit.timedOut, hphase]
  have haccepted : Visit.accepted (p, .offered now) =
      decide ((p.dhcpOffered now).2 = .clear) := rfl
  rcases p.dhcpOffered_fallback now with hnone | ⟨hold, -, hclear, hphase⟩
  · apply CounterMove.keep hsaw htimed <;> simp [haccepted, hafter, hnone]
  · have hmigrating : (p.dhcpOffered now).1.migrating = true ∧
        (p.dhcpOffered now).1.failedMigrations = p.failedMigrations := by
      unfold dhcpOffered at hclear ⊢
      repeat' split
      all_goals simp_all
    refine .accept hsaw htimed ?_ hold hmigrating.1 hmigrating.2 ?_
    · simp [haccepted, hclear]
    · rw [hafter, hphase]
      trivial

end AutoAddress

theorem Visit.counterMove (visit : Visit) : CounterMove visit := by
  obtain ⟨p, call⟩ := visit
  cases call with
  | tick now link configured connected pending conflict =>
      exact p.tick_counterMove now link configured connected pending conflict
  | offered now => exact p.offered_counterMove now

/-- While a fallback address is held the next check moves with a check only. -/
inductive NextCheck (visit : Visit) : Prop
  | set (hnext : visit.after.nextDhcpProbe = visit.now + visit.1.probeInterval)
  | keep (hold : visit.1.phase.Fallback) (hother : ¬visit.IsDhcpProbe)
      (hnext : visit.after.nextDhcpProbe = visit.1.nextDhcpProbe)

/-- What a DHCP check finds and leaves. -/
structure CheckStart (p p' : AutoAddress) (now : ℕ) : Prop where
  due : p.nextDhcpProbe ≤ now
  closed : p.dhcpProbeUntil = none
  held : p.phase.Fallback
  kept : p'.phase.Fallback
  opened : p'.dhcpProbeUntil = some (now + 4000)

namespace AutoAddress

variable (p : AutoAddress) (now : ℕ)
variable (link configured connected pending conflict : Bool)

theorem checkDhcp_next :
    (p.checkDhcp now pending).1.nextDhcpProbe = now + p.probeInterval ∨
      (∀ xid, (p.checkDhcp now pending).2 ≠ .dhcpProbe xid) ∧
        (p.checkDhcp now pending).1.nextDhcpProbe = p.nextDhcpProbe := by
  unfold checkDhcp
  repeat' split
  all_goals simp

theorem checkDhcp_probe (hheld : p.phase.Fallback) {xid : UInt32}
    (hprobe : (p.checkDhcp now pending).2 = .dhcpProbe xid) :
    CheckStart p (p.checkDhcp now pending).1 now := by
  unfold checkDhcp at hprobe ⊢
  split
  next hopen => simp [hopen] at hprobe
  next hopen =>
    rw [if_neg hopen] at hprobe
    split
    next hdue => exact ⟨hdue.2.1, by simpa using hdue.1, hheld, hheld, rfl⟩
    next hdue =>
      rw [if_neg hdue] at hprobe
      simp at hprobe

theorem tickOnline_next (idle : ℕ) (announceAt : Option (ℕ × ℕ)) :
    (p.tickOnline now configured connected pending conflict
        true idle announceAt).1.nextDhcpProbe = now + p.probeInterval ∨
      (∀ xid, (p.tickOnline now configured connected pending conflict
        true idle announceAt).2 ≠ .dhcpProbe xid) ∧
        (p.tickOnline now configured connected pending conflict
          true idle announceAt).1.nextDhcpProbe = p.nextDhcpProbe := by
  unfold tickOnline
  split
  next => exact .inr ⟨by simp, rfl⟩
  next =>
    simp only
    generalize (if connected = true then now else idle) = active
    split
    next => exact .inr ⟨by simp, rfl⟩
    next =>
      split
      next => exact .inr ⟨by simp, rfl⟩
      next => exact checkDhcp_next { p with phase := .online true active announceAt } now pending

theorem tickOnline_probe {idle : ℕ} {announceAt : Option (ℕ × ℕ)} {xid : UInt32}
    (hheld : p.phase.Fallback)
    (hprobe : (p.tickOnline now configured connected pending conflict
      true idle announceAt).2 = .dhcpProbe xid) :
    CheckStart p (p.tickOnline now configured connected pending conflict
      true idle announceAt).1 now := by
  unfold tickOnline at hprobe ⊢
  split
  next hgiven =>
    rw [if_pos hgiven] at hprobe
    simp at hprobe
  next hgiven =>
    rw [if_neg hgiven] at hprobe
    simp only at hprobe ⊢
    generalize (if connected = true then now else idle) = active at hprobe ⊢
    split
    next hidle => simp [hidle] at hprobe
    next hidle =>
      rw [if_neg hidle] at hprobe
      split
      next left hdue => simp [hdue] at hprobe
      next hdue =>
        simp only [hdue] at hprobe
        have hcheck := checkDhcp_probe
          { p with phase := .online true active announceAt } now pending trivial hprobe
        exact ⟨hcheck.due, hcheck.closed, hheld, hcheck.kept, hcheck.opened⟩

end AutoAddress

theorem PhaseMove.held_before {mac : Mac} {now : ℕ} {pending conflict : Bool}
    {old new : Phase} {action : Action}
    (hmove : PhaseMove mac now pending conflict old action new)
    (hnew : new.Fallback) : old.Fallback ∨ ∃ untilMs, old = .claimDelay untilMs := by
  cases hmove with
  | relinquish h => rcases h with rfl | rfl <;> exact absurd hnew id
  | keep _ => exact .inl hnew
  | claim _ _ => exact .inr ⟨_, rfl⟩
  | fallback _ _ => exact .inl trivial
  | _ => exact absurd hnew id

theorem PhaseMove.probe_held {mac : Mac} {now : ℕ} {pending conflict : Bool}
    {old new : Phase} {xid : UInt32}
    (hmove : PhaseMove mac now pending conflict old (.dhcpProbe xid) new) :
    old.Fallback := by
  cases hmove with
  | fallback _ _ => trivial
  | leaseAnnounce haction => simp at haction

namespace AutoAddress

variable (p : AutoAddress) (now : ℕ)
variable (link configured connected pending conflict : Bool)

theorem link_of_fallback
    (hnew : (p.tick now link configured connected pending conflict).1.phase.Fallback) :
    link = true := by
  by_contra hdown
  have hphase : (p.tick now link configured connected pending conflict).1.phase =
      .down := by
    rw [tick, if_pos (by simpa using hdown)]
    split
    · rfl
    · exact not_not.mp ‹_›
  rw [hphase] at hnew
  exact hnew

/-- The check after a claim delay that ended in a fallback address. -/
theorem nextDhcpProbe_claimDelay {untilMs : ℕ} (hphase : p.phase = .claimDelay untilMs)
    (hnew : (p.tick now true configured connected pending conflict).1.phase.Fallback) :
    (p.tick now true configured connected pending conflict).1.nextDhcpProbe =
      now + p.probeInterval := by
  simp only [tick, hphase, not_true, if_false] at hnew ⊢
  split
  next hconflict =>
    rw [if_pos hconflict] at hnew
    exact absurd hnew id
  next hconflict =>
    rw [if_neg hconflict] at hnew
    split
    next => rfl
    next huntil =>
      rw [if_neg huntil, hphase] at hnew
      exact absurd hnew id

theorem tick_nextCheck
    (hnew : (p.tick now link configured connected pending conflict).1.phase.Fallback) :
    NextCheck (p, .tick now link configured connected pending conflict) := by
  have hmove := p.tick_move now link configured connected pending conflict
  obtain rfl := p.link_of_fallback now link configured connected pending conflict hnew
  rcases hmove.held_before hnew with hheld | ⟨untilMs, hphase⟩
  · cases hphase : p.phase with
    | online fallback idle announceAt =>
        rw [hphase] at hheld
        cases fallback with
        | false => exact absurd hheld id
        | true =>
            have htick := p.tick_online now configured connected pending conflict hphase
            rcases p.tickOnline_next now configured connected pending conflict idle
              announceAt with hset | ⟨hother, hkeep⟩
            · rw [← htick] at hset
              exact .set hset
            · rw [← htick] at hother hkeep
              refine .keep ?_ (fun hprobe => hother _ hprobe.choose_spec) hkeep
              rw [hphase]
              trivial
    | _ =>
        rw [hphase] at hheld
        exact absurd hheld id
  · exact .set (p.nextDhcpProbe_claimDelay now configured connected pending conflict hphase
      hnew)

theorem tick_checkStart {xid : UInt32}
    (hprobe : (p.tick now link configured connected pending conflict).2 =
      .dhcpProbe xid) :
    CheckStart p (p.tick now link configured connected pending conflict).1 now := by
  have hmove := p.tick_move now link configured connected pending conflict
  rw [hprobe] at hmove
  have hheld := hmove.probe_held
  cases hphase : p.phase with
  | online fallback idle announceAt =>
      cases fallback with
      | false =>
          rw [hphase] at hheld
          exact absurd hheld id
      | true =>
          cases link with
          | false => simp [tick, hphase] at hprobe
          | true =>
              have htick := p.tick_online now configured connected pending conflict hphase
              rw [htick] at hprobe ⊢
              exact p.tickOnline_probe now configured connected pending conflict hheld
                hprobe
  | _ =>
      rw [hphase] at hheld
      exact absurd hheld id

end AutoAddress

theorem Visit.nextCheck (visit : Visit) (hnew : visit.after.phase.Fallback) :
    NextCheck visit := by
  obtain ⟨p, call⟩ := visit
  cases call with
  | tick now link configured connected pending conflict =>
      exact p.tick_nextCheck now link configured connected pending conflict hnew
  | offered now =>
      change (p.dhcpOffered now).1.phase.Fallback at hnew
      rcases p.dhcpOffered_fallback now with hnone | ⟨-, -, -, hphase⟩
      · rw [hnone] at hnew
        refine .keep hnew ?_ ?_
        · rintro ⟨xid, hxid⟩
          change (p.dhcpOffered now).2 = _ at hxid
          simp [hnone] at hxid
        · change (p.dhcpOffered now).1.nextDhcpProbe = _
          rw [hnone]
      · rw [hphase] at hnew
        exact absurd hnew id

theorem Visit.IsDhcpProbe.check {visit : Visit} (hprobe : visit.IsDhcpProbe) :
    CheckStart visit.1 visit.after visit.now := by
  obtain ⟨p, call⟩ := visit
  obtain ⟨xid, hxid⟩ := hprobe
  cases call with
  | tick now link configured connected pending conflict =>
      exact p.tick_checkStart now link configured connected pending conflict hxid
  | offered now =>
      change (p.dhcpOffered now).2 = _ at hxid
      rcases p.dhcpOffered_cases now with hnone | ⟨-, -, -, hclear⟩
      · simp [hnone] at hxid
      · simp [hclear] at hxid

/-! ## The distance of two checks -/

/-- The counter, its flag and the time of the next check, as the trace shows
them. -/
structure BackedOff (mac : Mac) (past : List Visit) (p : AutoAddress) : Prop where
  mac_eq : p.mac = mac
  counted : (sinceLease past).countP Visit.accepted =
    failedOffers past + if p.migrating then 1 else 0
  failed : p.failedMigrations = min (failedOffers past) 255
  settling : p.migrating = true → p.phase.Settling
  next : p.phase.Fallback → ∀ visit ∈ past, visit.IsDhcpProbe →
    visit.now + p.probeInterval ≤ p.nextDhcpProbe

namespace BackedOff

theorem ofNew (mac : Mac) : BackedOff mac [] (AutoAddress.new mac) where
  mac_eq := rfl
  counted := rfl
  failed := rfl
  settling := fun _ => trivial
  next := fun _ _ hvisit => absurd hvisit List.not_mem_nil

theorem afterNext {mac : Mac} {past : List Visit} {visit : Visit}
    (hheld : BackedOff mac past visit.1)
    (hpast : ∀ earlier ∈ past, earlier.now ≤ visit.now)
    (hinterval : visit.after.probeInterval = visit.1.probeInterval)
    (hnew : visit.after.phase.Fallback) :
    ∀ earlier ∈ past ++ [visit], earlier.IsDhcpProbe →
      earlier.now + visit.after.probeInterval ≤ visit.after.nextDhcpProbe := by
  intro earlier hmem hprobe
  rw [hinterval]
  have hle : earlier.now ≤ visit.now := by
    rcases List.mem_append.mp hmem with h | h
    · exact hpast earlier h
    · rw [List.mem_singleton.mp h]
  cases visit.nextCheck hnew with
  | set hnext =>
      rw [hnext]
      exact Nat.add_le_add_right hle _
  | keep hold hother hnext =>
      rw [hnext]
      rcases List.mem_append.mp hmem with h | h
      · exact hheld.next hold earlier h hprobe
      · rw [List.mem_singleton.mp h] at hprobe
        exact absurd hprobe hother

theorem afterVisit {mac : Mac} {past : List Visit} {visit : Visit}
    (hheld : BackedOff mac past visit.1)
    (hpast : ∀ earlier ∈ past, earlier.now ≤ visit.now) :
    BackedOff mac (past ++ [visit]) visit.after := by
  have hmac : visit.after.mac = mac :=
    (visit.1.answer_candidate visit.2).mac_eq.trans hheld.mac_eq
  cases visit.counterMove with
  | lease hsaw hmigrating hfailed hphase =>
      have hsince := sinceLease_concat_lease past hsaw
      refine ⟨hmac, ?_, ?_, by simp [hmigrating], fun h => absurd h hphase⟩
      · simp [failedOffers, hsince, followedOffers, hmigrating]
      · simp [failedOffers, hsince, followedOffers, hfailed]
  | timeout hsaw htimed hmigrating hfailed hphase =>
      have hcounted := hheld.counted
      have hsince := sinceLease_concat past hsaw
      have hoffers : failedOffers (past ++ [visit]) =
          (sinceLease past).countP Visit.accepted := by
        rw [failedOffers, hsince, followedOffers_concat_timedOut htimed]
      have haccepted := Visit.accepted_eq_false htimed
      refine ⟨hmac, ?_, ?_, by simp [hmigrating], fun h => absurd h hphase⟩
      · simp [hoffers, hsince, hmigrating, haccepted]
      · rw [hfailed, hheld.failed, hoffers, hcounted]
        cases visit.1.migrating with
        | true => simp only [if_true]; omega
        | false => simp
  | accept hsaw htimed haccepted hold hmigrating hfailed hphase =>
      have hidle : visit.1.migrating = false := by
        rw [Bool.eq_false_iff]
        exact fun h => (hheld.settling h).not_fallback hold
      have hcounted := hheld.counted
      have hsince := sinceLease_concat past hsaw
      have hoffers := failedOffers_concat past hsaw htimed
      refine ⟨hmac, ?_, ?_, fun _ => hphase, fun h => absurd h hphase.not_fallback⟩
      · rw [hoffers, hsince, List.countP_append, hcounted]
        simp [hidle, hmigrating, haccepted]
      · rw [hfailed, hheld.failed, hoffers]
  | keep hsaw htimed haccepted hmigrating hfailed hphase =>
      have hcounted := hheld.counted
      have hsince := sinceLease_concat past hsaw
      have hoffers := failedOffers_concat past hsaw htimed
      have hinterval : visit.after.probeInterval = visit.1.probeInterval := by
        rw [AutoAddress.probeInterval, AutoAddress.probeInterval, hfailed, hmac,
          hheld.mac_eq]
      refine ⟨hmac, ?_, ?_, ?_, hheld.afterNext hpast hinterval⟩
      · rw [hoffers, hsince, List.countP_append, hcounted, hmigrating]
        simp [haccepted]
      · rw [hfailed, hheld.failed, hoffers]
      · rw [hmigrating]
        exact fun h => hphase (hheld.settling h)

theorem ofTrace (mac : Mac) {calls : List Call} (hclock : Nondecreasing calls) :
    BackedOff mac (policyTrace (AutoAddress.new mac) calls)
      (calls.foldl AutoAddress.afterCall (AutoAddress.new mac)) := by
  refine Runs.trace_invariant (BackedOff mac)
    (fun past _ call => ∀ earlier ∈ past, Visit.now earlier ≤ call.now) ?_ (ofNew mac) ?_
  · intro past p call hheld hpast
    exact hheld.afterVisit hpast
  · intro front p call back hcut
    exact (hclock.le hcut).1

end BackedOff

/-! ## The end of a check -/

/-- A check that is open is neither stopped nor followed by another one while
the address is held. -/
structure CheckOpen (p : AutoAddress) : Prop where
  held : p.phase.Fallback
  opened : p.dhcpProbeUntil ≠ none

theorem CheckOpen.afterVisit {visit : Visit} (hopen : CheckOpen visit.1)
    (hstop : visit.action ≠ .stopDhcpProbe) (hclear : visit.action ≠ .clear) :
    CheckOpen visit.after := by
  obtain ⟨p, call⟩ := visit
  obtain ⟨hheld, hopened⟩ := hopen
  cases call with
  | tick now link configured connected pending conflict =>
      have hquiet : p.phase.LeaseQuiet := by
        cases hphase : p.phase with
        | online fallback idle announceAt =>
            cases fallback with
            | true => trivial
            | false =>
                simp only [hphase] at hheld
                exact absurd hheld id
        | _ => trivial
      have hmove := p.tick_fallback now link configured connected pending conflict hquiet
      obtain ⟨hkept, -⟩ := (p.tick_move now link configured connected pending
        conflict).fallback_kept hheld hclear
      refine ⟨hkept, ?_⟩
      change (p.tick now link configured connected pending conflict).2 ≠ _ at hstop
      change (p.tick now link configured connected pending conflict).1.dhcpProbeUntil ≠ none
      generalize p.tick now link configured connected pending conflict = ticked
        at hmove hkept hstop ⊢
      generalize ticked.2 = action at hmove hstop
      cases hmove with
      | leave _ hnew => exact absurd hkept hnew
      | outside _ hold _ => exact absurd hheld hold
      | claim hold _ _ => exact absurd hheld hold
      | announce _ _ _ huntil | stay _ _ huntil =>
          rw [huntil]
          exact hopened
      | ask _ _ huntil => simp [huntil]
      | stop _ _ _ => exact absurd rfl hstop
  | offered now =>
      change (p.dhcpOffered now).2 ≠ _ at hclear
      rcases p.dhcpOffered_fallback now with hnone | ⟨-, -, hcleared, -⟩
      · simp only [Visit.after, AutoAddress.afterCall, AutoAddress.answer, hnone]
        exact ⟨hheld, hopened⟩
      · exact absurd hcleared hclear

/-- Two DHCP checks of a run keep the distance that the offers since the last
lease ask for, and the first is over before the second. -/
theorem dhcpProbes_back_off (mac : Mac) (calls : List Call)
    (hclock : Nondecreasing calls) (front middle back : List Visit)
    (first second : Visit)
    (htrace : policyTrace (AutoAddress.new mac) calls =
      front ++ first :: (middle ++ second :: back))
    (hfirst : first.IsDhcpProbe) (hsecond : second.IsDhcpProbe) :
    first.now + (15000 * 2 ^ min (failedOffers (front ++ first :: middle)) 4 +
        4 * mac.b5.toNat) ≤ second.now ∧
      ∃ visit ∈ middle, visit.action = .stopDhcpProbe ∨ visit.action = .clear := by
  have hsplit : policyTrace (AutoAddress.new mac) calls =
      (front ++ first :: middle) ++ second :: back := by
    rw [htrace]
    simp
  have hcheck := hsecond.check
  constructor
  · obtain ⟨before, rest, hcalls, hbefore, hstate, -⟩ := Runs.trace_eq_append_cons hsplit
    have hbacked := BackedOff.ofTrace mac (show Nondecreasing before by
      rw [hcalls] at hclock
      exact (List.pairwise_append.mp hclock).1)
    rw [policyTrace, hbefore, ← hstate] at hbacked
    have hnext := hbacked.next hcheck.held first (by simp) hfirst
    rw [AutoAddress.probeInterval, hbacked.mac_eq, hbacked.failed, Nat.mul_comm _ 4] at hnext
    have hfailed : min (min (failedOffers (front ++ first :: middle)) 255) 4 =
        min (failedOffers (front ++ first :: middle)) 4 := by omega
    rw [hfailed] at hnext
    exact hnext.trans hcheck.due
  · by_contra hnone
    simp only [not_exists, not_and, not_or] at hnone
    obtain ⟨before, rest, -, -, -, hrest⟩ := Runs.trace_eq_append_cons htrace
    obtain ⟨between, rest', -, hmiddle, hstate, -⟩ := Runs.trace_eq_append_cons hrest
    have hfirstOpen : CheckOpen first.after :=
      ⟨hfirst.check.kept, by rw [hfirst.check.opened]; simp⟩
    have hopen : CheckOpen second.1 := by
      rw [hstate]
      refine @Runs.trace_invariant _ _ _ (fun _ p => CheckOpen p)
        (fun _ p call => Visit.action (p, call) ≠ .stopDhcpProbe ∧
          Visit.action (p, call) ≠ .clear) ?_ [] _ hfirstOpen _ ?_
      · intro past p call hopen hallowed
        exact hopen.afterVisit hallowed.1 hallowed.2
      · intro front' p call back' hcut
        have hmem : (p, call) ∈ middle := by
          rw [← hmiddle]
          exact hcut ▸ List.mem_append_right front' List.mem_cons_self
        exact hnone (p, call) hmem
    exact hopen.opened hcheck.closed

/-- No lease, three probes, a claim and its two announcements. -/
def claimedCalls : List Call :=
  [0, 10000, 10020, 10035, 10055, 11059, 11079, 12083, 12103, 15107].map
      (fun now => .tick now true false false false false) ++
    [15117, 17127].map fun now => .tick now true true true false false

theorem dhcpProbes_back_off_claimed :
    ∃ visit ∈ policyTrace
        (AutoAddress.afterCall
          (claimedCalls.foldl AutoAddress.afterCall (AutoAddress.new ⟨2, 1, 2, 3, 4, 5⟩))
          (.tick 30127 true true true false false))
        [.tick 34127 true true true false false],
      visit.action = .stopDhcpProbe ∨ visit.action = .clear := by
  have hprobes := dhcpProbes_back_off ⟨2, 1, 2, 3, 4, 5⟩
    (claimedCalls ++ .tick 30127 true true true false false ::
      ([.tick 34127 true true true false false] ++
        .tick 45147 true true true false false :: []))
    (by decide) _ _ _ _ _ (policyTrace_window _ _ _ _ _ _)
    (by decide +kernel) (by decide +kernel)
  exact hprobes.2

end AutoIp
end PicoFi
