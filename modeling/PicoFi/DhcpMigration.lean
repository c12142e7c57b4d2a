import PicoFi.AddressFallback

/-!
# A session is given up for a fresh offer only

While a fallback address is held the policy asks from time to time whether a
DHCP server has appeared.  The shared flags, the transaction and the policy's
window belong to one check at a time: the one the log shows since the last
action that begins or ends a check.  A migration happens exactly when that
check is still open and answered.
-/

namespace PicoFi
namespace AutoIp

open History

/-! ## The check the log shows -/

/-- An action that begins or ends a DHCP check. -/
def Entry.BoundsCheck : Entry → Prop
  | .action _ (.dhcpProbe _) | .action _ .stopDhcpProbe | .action _ .clear
  | .action _ .dhcp | .action _ (.claim _) => True
  | _ => False

abbrev DhcpCheck (log before : List Entry) (asked : ℕ) (xid : UInt32)
    (since : List Entry) : Prop :=
  Since Entry.BoundsCheck log before (.action asked (.dhcpProbe xid)) since

def Transmitted (mac : Mac) (xid : UInt32) (since : List Entry) : Prop :=
  .sent (DhcpProbe.discover mac xid) ∈ since

def Answered (mac : Mac) (xid : UInt32) (since : List Entry) : Prop :=
  ∃ front back frame,
    since = front ++ .sent (DhcpProbe.discover mac xid) :: back ∧
      .inspected frame ∈ back ∧ DhcpProbe.isOffer frame mac xid = some true

theorem transmitted_concat {mac : Mac} {xid : UInt32} {since : List Entry}
    {e : Entry} :
    Transmitted mac xid (since ++ [e]) ↔ Transmitted mac xid since ∨
      e = .sent (DhcpProbe.discover mac xid) := by
  simp [Transmitted, eq_comm]

theorem answered_concat {mac : Mac} {xid : UInt32} {since : List Entry}
    {e : Entry} :
    Answered mac xid (since ++ [e]) ↔ Answered mac xid since ∨
      (Transmitted mac xid since ∧ ∃ frame, e = .inspected frame ∧
        DhcpProbe.isOffer frame mac xid = some true) := by
  constructor
  · rintro ⟨front, back, frame, hsince, hframe, hoffer⟩
    rcases List.eq_nil_or_concat back with rfl | ⟨rest, last, rfl⟩
    · simp at hframe
    · rw [List.concat_eq_append] at hsince hframe
      rw [← List.cons_append, ← List.append_assoc] at hsince
      obtain ⟨hfront, he⟩ := List.append_inj' hsince rfl
      obtain rfl : e = last := List.singleton_inj.mp he
      rcases List.mem_append.mp hframe with h | h
      · exact .inl ⟨front, rest, frame, hfront, h, hoffer⟩
      · refine .inr ⟨?_, frame, (List.mem_singleton.mp h).symm, hoffer⟩
        rw [Transmitted, hfront]
        simp
  · rintro (⟨front, back, frame, rfl, hframe, hoffer⟩ | ⟨hsent, frame, rfl, hoffer⟩)
    · exact ⟨front, back ++ [e], frame, by simp, by simp [hframe], hoffer⟩
    · obtain ⟨front, back, rfl⟩ := List.append_of_mem hsent
      exact ⟨front, back ++ [.inspected frame], frame, by simp, by simp, hoffer⟩

theorem DhcpProbe.isOffer_xid {frame : List UInt8} {mac : Mac} {xid : UInt32}
    (hoffer : DhcpProbe.isOffer frame mac xid = some true) : xid ≠ 0 := by
  rintro rfl
  simp [DhcpProbe.isOffer] at hoffer

/-! ## The check a device works on -/

namespace Device

/-- The policy holds a fallback address and its window closes at `untilMs`. -/
def Checking (d : Device) (untilMs : ℕ) : Prop :=
  d.policy.phase.Fallback ∧ d.policy.dhcpProbeUntil = some untilMs

/-- The flags stand for what the log shows since the probe was asked for; the
offer flag is taken by the policy only once the window has closed. -/
structure Open (d : Device) (untilMs : ℕ) (before : List Entry) (asked : ℕ)
    (since : List Entry) : Prop where
  check : DhcpCheck d.log before asked d.probe.dhcpXid since
  window : untilMs = asked + 4000
  past : asked ≤ d.clock
  sent : d.probe.dhcpPending = false ↔
    Transmitted d.policy.mac d.probe.dhcpXid since
  offered : d.probe.dhcpOffer = true →
    Answered d.policy.mac d.probe.dhcpXid since
  kept : Answered d.policy.mac d.probe.dhcpXid since →
    d.probe.dhcpOffer = true ∨ untilMs ≤ d.clock

/-- No check: the flags are down and the log shows none. -/
structure Unchecked (d : Device) : Prop where
  xid_eq : d.probe.dhcpXid = 0
  pending_eq : d.probe.dhcpPending = false
  offer_eq : d.probe.dhcpOffer = false
  none_open : ∀ before asked xid since, ¬DhcpCheck d.log before asked xid since

structure CheckInv (mac : Mac) (d : Device) : Prop where
  coherent : d.Coherent
  mac_eq : d.policy.mac = mac
  opened : ∀ untilMs, d.Checking untilMs →
    ∃ before asked since, d.Open untilMs before asked since
  unchecked : (∀ untilMs, ¬d.Checking untilMs) → d.Unchecked

theorem Open.afterEntry {d d' : Device} {untilMs asked : ℕ}
    {before since : List Entry} (hopen : d.Open untilMs before asked since)
    {e : Entry} (hlog : d'.log = d.log ++ [e]) (hentry : ¬e.BoundsCheck)
    (hmac : d'.policy.mac = d.policy.mac)
    (hxid : d'.probe.dhcpXid = d.probe.dhcpXid) (hclock : d.clock ≤ d'.clock)
    (hsent : d'.probe.dhcpPending = false ↔ d.probe.dhcpPending = false ∨
      e = .sent (DhcpProbe.discover d.policy.mac d.probe.dhcpXid))
    (hoffered : d'.probe.dhcpOffer = true → d.probe.dhcpOffer = true ∨
      (d.probe.dhcpPending = false ∧ ∃ frame, e = .inspected frame ∧
        DhcpProbe.isOffer frame d.policy.mac d.probe.dhcpXid = some true))
    (hraised : d.probe.dhcpPending = false → (∃ frame, e = .inspected frame ∧
        DhcpProbe.isOffer frame d.policy.mac d.probe.dhcpXid = some true) →
      d'.probe.dhcpOffer = true)
    (hkept : d.probe.dhcpOffer = true →
      d'.probe.dhcpOffer = true ∨ untilMs ≤ d'.clock) :
    d'.Open untilMs before asked (since ++ [e]) := by
  constructor
  · rw [hlog, hxid]
    exact hopen.check.concat hentry
  · exact hopen.window
  · exact hopen.past.trans hclock
  · rw [hmac, hxid, transmitted_concat, ← hopen.sent]
    exact hsent
  · intro hoffer
    rw [hmac, hxid, answered_concat, ← hopen.sent]
    exact (hoffered hoffer).imp hopen.offered id
  · intro hanswered
    rw [hmac, hxid, answered_concat, ← hopen.sent] at hanswered
    rcases hanswered with hearlier | ⟨hpending, hframe⟩
    · rcases hopen.kept hearlier with hoffer | hclosed
      · exact hkept hoffer
      · exact .inr (hclosed.trans hclock)
    · exact .inl (hraised hpending hframe)

theorem none_open_concat {log : List Entry} {e : Entry}
    (hlog : e.BoundsCheck ∨ ∀ before asked xid since,
      ¬DhcpCheck log before asked xid since)
    (hentry : ∀ asked xid, e ≠ .action asked (.dhcpProbe xid)) :
    ∀ before asked xid since, ¬DhcpCheck (log ++ [e]) before asked xid since := by
  intro before asked xid since hcheck
  rcases hcheck.of_concat with ⟨-, hmark, -, -⟩ | ⟨hnot, rest, -, hrest⟩
  · exact hentry asked xid hmark.symm
  · rcases hlog with hbounds | hnone
    · exact hnot hbounds
    · exact hnone before asked xid rest hrest

theorem Unchecked.afterEntry {d d' : Device} (hunchecked : d.Unchecked)
    {e : Entry} (hlog : d'.log = d.log ++ [e])
    (hentry : ∀ asked xid, e ≠ .action asked (.dhcpProbe xid))
    (hflags : d'.probe.dhcpXid = 0 ∧ d'.probe.dhcpPending = false ∧
      d'.probe.dhcpOffer = false) : d'.Unchecked := by
  refine ⟨hflags.1, hflags.2.1, hflags.2.2, ?_⟩
  rw [hlog]
  exact none_open_concat (.inr hunchecked.none_open) hentry

namespace CheckInv

theorem ofStart (mac : Mac) : CheckInv mac (start mac) := by
  constructor
  · exact start_coherent mac
  · rfl
  · rintro untilMs ⟨hfallback, -⟩
    exact absurd hfallback id
  · intro _
    constructor
    · rfl
    · rfl
    · rfl
    · intro before asked xid since hcheck
      exact Since.not_nil hcheck

variable {mac : Mac} {d : Device}

theorem afterReceive (hinv : CheckInv mac d) (frame : List UInt8) :
    CheckInv mac (d.receiveStep frame) := by
  have hmac := hinv.coherent.mac_eq
  constructor
  · exact hinv.coherent.afterReceive frame
  · exact hinv.mac_eq
  · intro untilMs hchecking
    obtain ⟨before, asked, since, hopen⟩ := hinv.opened untilMs hchecking
    refine ⟨before, asked, since ++ [.inspected frame],
      hopen.afterEntry rfl id rfl rfl (Nat.le_refl _) ?_ ?_ ?_ ?_⟩
    · simp [receiveStep, ProbeState.inspect]
    · intro hoffer
      simp only [receiveStep, ProbeState.inspect, Bool.or_eq_true,
        Bool.and_eq_true, Bool.not_eq_true', beq_iff_eq, hmac] at hoffer
      exact hoffer.imp id fun h => ⟨h.1.2, frame, rfl, h.2⟩
    · rintro hpending ⟨_, ⟨rfl⟩, hoffer⟩
      have hxid := DhcpProbe.isOffer_xid hoffer
      simp [receiveStep, ProbeState.inspect, hpending, hmac, hoffer, hxid]
    · intro hoffer
      exact .inl (by simp [receiveStep, ProbeState.inspect, hoffer])
  · intro hnone
    have hunchecked := hinv.unchecked hnone
    apply hunchecked.afterEntry rfl (by simp)
    refine ⟨hunchecked.xid_eq, hunchecked.pending_eq, ?_⟩
    simp [receiveStep, ProbeState.inspect, hunchecked.xid_eq,
      hunchecked.offer_eq]

theorem afterService (hinv : CheckInv mac d) (linkUp ready : Bool) :
    CheckInv mac (d.serviceStep linkUp ready) := by
  have hcoherent := hinv.coherent.afterService linkUp ready
  have hmac := hinv.coherent.mac_eq
  rcases d.serviceStep_cases linkUp ready with
    hsame | ⟨-, -, hsent⟩ | ⟨hpending, hsent⟩
  · rwa [hsame]
  · rw [hsent] at hcoherent ⊢
    constructor
    · exact hcoherent
    · exact hinv.mac_eq
    · intro untilMs hchecking
      obtain ⟨before, asked, since, hopen⟩ := hinv.opened untilMs hchecking
      refine ⟨before, asked, _, hopen.afterEntry rfl id rfl rfl (Nat.le_refl _)
        ?_ .inl (by simp) .inl⟩
      simp [DhcpProbe.arpProbe_ne_discover]
    · intro hnone
      have hunchecked := hinv.unchecked hnone
      exact hunchecked.afterEntry rfl (by simp)
        ⟨hunchecked.xid_eq, hunchecked.pending_eq, hunchecked.offer_eq⟩
  · rw [hsent] at hcoherent ⊢
    constructor
    · exact hcoherent
    · exact hinv.mac_eq
    · intro untilMs hchecking
      obtain ⟨before, asked, since, hopen⟩ := hinv.opened untilMs hchecking
      refine ⟨before, asked, _, hopen.afterEntry rfl id rfl rfl (Nat.le_refl _)
        ?_ .inl (by simp) .inl⟩
      simp [hmac]
    · intro hnone
      have hunchecked := hinv.unchecked hnone
      rw [hunchecked.pending_eq] at hpending
      exact absurd hpending (by decide)

end CheckInv

/-- A pass of the policy task that takes up an offer. -/
def migrates (d : Device) (elapsed : ℕ) : Bool :=
  d.probe.takeDhcpOffer.2 &&
    (d.policy.dhcpOffered (d.clock + elapsed)).2 == .clear

theorem migrates_iff (d : Device) (elapsed : ℕ) :
    d.migrates elapsed = true ↔ d.probe.dhcpOffer = true ∧
      ∃ untilMs, d.Checking untilMs ∧ d.clock + elapsed < untilMs := by
  simp only [migrates, ProbeState.takeDhcpOffer, Bool.and_eq_true, beq_iff_eq,
    AutoAddress.dhcpOffered_eq_clear_iff, Checking]
  constructor
  · rintro ⟨hoffer, hheld, untilMs, huntil, hlt⟩
    exact ⟨hoffer, untilMs, ⟨hheld, huntil⟩, hlt⟩
  · rintro ⟨hoffer, untilMs, ⟨hheld, huntil⟩, hlt⟩
    exact ⟨hoffer, hheld, untilMs, huntil, hlt⟩

theorem passAction_of_migrates {d : Device} {elapsed : ℕ}
    (hmigrates : d.migrates elapsed = true) (link configured connected : Bool) :
    d.passAction elapsed link configured connected = .clear := by
  simp only [migrates, Bool.and_eq_true, beq_iff_eq] at hmigrates
  simp [passAction, AutoAddress.decideAction, hmigrates.1, hmigrates.2]

theorem Unchecked.afterPass {d d' : Device} {elapsed : ℕ} {action : Action}
    (hunchecked : d.Unchecked) (hpass : d.PolicyPass d' elapsed action)
    (haction : ∀ xid, action ≠ .dhcpProbe xid) : d'.Unchecked := by
  have hflags : d'.probe.dhcpXid = 0 ∧ d'.probe.dhcpPending = false ∧
      d'.probe.dhcpOffer = false := by
    rw [hpass.probe_eq]
    cases action with
    | dhcpProbe xid => exact absurd rfl (haction xid)
    | clear | dhcp | stopDhcpProbe => exact ⟨rfl, rfl, rfl⟩
    | _ => exact ⟨hunchecked.xid_eq, hunchecked.pending_eq, rfl⟩
  exact hunchecked.afterEntry hpass.log_eq (by simp [haction]) hflags

theorem PolicyPass.unchecked {d d' : Device} {elapsed : ℕ} {action : Action}
    (hpass : d.PolicyPass d' elapsed action)
    (haction : action = .clear ∨ action = .dhcp ∨ action = .stopDhcpProbe) :
    d'.Unchecked := by
  constructor
  · rw [hpass.probe_eq]
    rcases haction with rfl | rfl | rfl <;> rfl
  · rw [hpass.probe_eq]
    rcases haction with rfl | rfl | rfl <;> rfl
  · rw [hpass.probe_eq]
    rcases haction with rfl | rfl | rfl <;> rfl
  · rw [hpass.log_eq]
    rcases haction with rfl | rfl | rfl <;>
      exact none_open_concat (.inl trivial) (by simp)

/-- While the check goes on the offer flag is taken only after the window. -/
theorem Open.afterPass {d d' : Device} {elapsed untilMs asked : ℕ}
    {action : Action} {before since : List Entry}
    (hopen : d.Open untilMs before asked since)
    (hpass : d.PolicyPass d' elapsed action)
    (haction : action = .none ∨ action = .announce)
    (hclosed : d.probe.dhcpOffer = true → untilMs ≤ d.clock + elapsed) :
    d'.Open untilMs before asked
      (since ++ [.action (d.clock + elapsed) action]) := by
  have hprobe : d'.probe.dhcpXid = d.probe.dhcpXid ∧
      d'.probe.dhcpPending = d.probe.dhcpPending ∧
      d'.probe.dhcpOffer = false := by
    rw [hpass.probe_eq]
    rcases haction with rfl | rfl <;> exact ⟨rfl, rfl, rfl⟩
  have hentry : ¬(Entry.action (d.clock + elapsed) action).BoundsCheck := by
    rcases haction with rfl | rfl <;> exact id
  apply hopen.afterEntry hpass.log_eq hentry hpass.address.mac_eq hprobe.1
  · rw [hpass.clock_eq]
    exact Nat.le_add_right _ _
  · simp [hprobe.2.1]
  · simp [hprobe.2.2]
  · simp
  · intro hoffer
    rw [hpass.clock_eq]
    exact .inr (hclosed hoffer)

theorem PolicyPass.opens {d d' : Device} {elapsed : ℕ} {xid : UInt32}
    (hpass : d.PolicyPass d' elapsed (.dhcpProbe xid)) :
    d'.Open (d.clock + elapsed + 4000) d.log (d.clock + elapsed) [] := by
  have hprobe : d'.probe.dhcpXid = xid ∧ d'.probe.dhcpPending = true ∧
      d'.probe.dhcpOffer = false := by
    rw [hpass.probe_eq]
    exact ⟨rfl, rfl, rfl⟩
  have hunanswered : ¬Answered d'.policy.mac d'.probe.dhcpXid [] := by
    rintro ⟨front, back, frame, hsince, -⟩
    simp at hsince
  constructor
  · rw [hpass.log_eq, hprobe.1]
    exact Since.afterMark d.log trivial
  · rfl
  · rw [hpass.clock_eq]
  · simp [hprobe.2.1, Transmitted]
  · simp [hprobe.2.2]
  · intro hanswered
    exact absurd hanswered hunanswered

theorem CheckInv.afterPolicy {mac : Mac} {d : Device} (hinv : CheckInv mac d)
    (elapsed : ℕ) (link configured connected : Bool) :
    CheckInv mac (d.policyStep elapsed link configured connected) := by
  have hcoherent := hinv.coherent.afterPolicy elapsed link configured connected
  have hpass := d.policyStep_action elapsed link configured connected
  have hmove :=
    hinv.coherent.policyStep_fallback elapsed link configured connected
  have hmigrates (h : d.migrates elapsed = true) :=
    passAction_of_migrates h link configured connected
  generalize d.policyStep elapsed link configured connected = d'
    at hpass hmove hcoherent ⊢
  generalize d.passAction elapsed link configured connected = action
    at hpass hmove hmigrates
  have hmac : d'.policy.mac = mac := by
    rw [hpass.address.mac_eq, hinv.mac_eq]
  constructor
  · exact hcoherent
  · exact hmac
  · intro untilMs hchecking
    have hcontinue (hchecked : d.Checking untilMs)
        (haction : action = .none ∨ action = .announce) :
        ∃ before asked since, d'.Open untilMs before asked since := by
      obtain ⟨before, asked, since, hopen⟩ := hinv.opened untilMs hchecked
      refine ⟨before, asked, _, hopen.afterPass hpass haction ?_⟩
      intro hoffer
      by_contra hearly
      have hclear := hmigrates ((d.migrates_iff elapsed).mpr
        ⟨hoffer, untilMs, hchecked, Nat.lt_of_not_le hearly⟩)
      rcases haction with rfl | rfl <;> exact absurd hclear (by simp)
    cases hmove with
    | leave _ hnew => exact absurd hchecking.1 hnew
    | outside _ _ hnew => exact absurd hchecking.1 hnew
    | claim _ _ huntil => simp [Checking, huntil] at hchecking
    | stop _ _ huntil => simp [Checking, huntil] at hchecking
    | announce hold _ _ huntil =>
        exact hcontinue ⟨by rw [hold]; trivial, huntil ▸ hchecking.2⟩ (.inr rfl)
    | stay hold _ huntil =>
        exact hcontinue ⟨by rw [hold]; trivial, huntil ▸ hchecking.2⟩ (.inl rfl)
    | ask _ _ huntil =>
        obtain rfl : d.clock + elapsed + 4000 = untilMs :=
          Option.some.inj (huntil.symm.trans hchecking.2)
        exact ⟨_, _, _, hpass.opens⟩
  · intro hnone
    have houtside (hold : ¬d.policy.phase.Fallback) : d.Unchecked :=
      hinv.unchecked fun untilMs hchecked => hold hchecked.1
    cases hmove with
    | leave haction _ =>
        apply hpass.unchecked
        rcases haction with h | h
        · exact .inl h
        · exact .inr (.inl h)
    | outside haction hold _ =>
        apply (houtside hold).afterPass hpass
        rcases haction with rfl | rfl | ⟨ip, rfl⟩ <;> simp
    | claim hold _ _ => exact (houtside hold).afterPass hpass (by simp)
    | stop _ _ _ => exact hpass.unchecked (.inr (.inr rfl))
    | ask _ hnew huntil =>
        exact absurd ⟨by rw [hnew]; trivial, huntil⟩ (hnone _)
    | announce _ _ hnew huntil =>
        refine (hinv.unchecked ?_).afterPass hpass (by simp)
        intro untilMs hchecked
        exact hnone untilMs ⟨by rw [hnew]; trivial, huntil.trans hchecked.2⟩
    | stay _ hnew huntil =>
        refine (hinv.unchecked ?_).afterPass hpass (by simp)
        intro untilMs hchecked
        exact hnone untilMs ⟨by rw [hnew]; trivial, huntil.trans hchecked.2⟩

theorem CheckInv.afterStep {mac : Mac} {d : Device} (hinv : CheckInv mac d)
    (event : DeviceEvent) : CheckInv mac (d.step event) := by
  cases event with
  | policy elapsed link configured connected =>
      exact hinv.afterPolicy elapsed link configured connected
  | service linkUp ready => exact hinv.afterService linkUp ready
  | receive frame => exact hinv.afterReceive frame

theorem checkInv_run (mac : Mac) (events : List DeviceEvent) :
    CheckInv mac (events.foldl step (start mac)) :=
  Runs.invariant (fun _ event hinv => hinv.afterStep event)
    (CheckInv.ofStart mac) events

/-- What the log shows when an offer is taken up at `now`. -/
structure MigrationHistory (mac : Mac) (d : Device) (now : ℕ)
    (before since : List Entry) (asked : ℕ) (xid : UInt32) : Prop where
  held : d.policy.phase.Fallback
  check : DhcpCheck d.log before asked xid since
  past : asked ≤ now
  recent : now < asked + 4000
  answered : Answered mac xid since

theorem CheckInv.migrates_iff_history {mac : Mac} {d : Device}
    (hinv : CheckInv mac d) (elapsed : ℕ) :
    d.migrates elapsed = true ↔ ∃ before since asked xid,
      MigrationHistory mac d (d.clock + elapsed) before since asked xid := by
  rw [migrates_iff]
  constructor
  · rintro ⟨hoffer, untilMs, hchecking, hlt⟩
    obtain ⟨before, asked, since, hopen⟩ := hinv.opened untilMs hchecking
    refine ⟨before, since, asked, d.probe.dhcpXid, ?_⟩
    constructor
    · exact hchecking.1
    · exact hopen.check
    · exact hopen.past.trans (Nat.le_add_right _ _)
    · exact hopen.window ▸ hlt
    · exact hinv.mac_eq ▸ hopen.offered hoffer
  · rintro ⟨before, since, asked, xid, hhistory⟩
    by_cases hnone : ∀ untilMs, ¬d.Checking untilMs
    · exact absurd hhistory.check ((hinv.unchecked hnone).none_open _ _ _ _)
    · obtain ⟨untilMs, hchecking⟩ := not_forall_not.mp hnone
      obtain ⟨before', asked', since', hopen⟩ := hinv.opened untilMs hchecking
      obtain ⟨rfl, hmark, rfl⟩ := hhistory.check.unique hopen.check
      injection hmark with hasked haction
      injection haction with hxid
      have hwindow := hopen.window
      have hrecent := hhistory.recent
      have hopened : d.clock + elapsed < untilMs := by omega
      refine ⟨?_, untilMs, hchecking, hopened⟩
      have hanswered := hhistory.answered
      rw [hxid, ← hinv.mac_eq] at hanswered
      rcases hopen.kept hanswered with hoffer | hclosed
      · exact hoffer
      · omega

/-- A check lies behind every migration before it. -/
theorem migration_before {d : Device} {elapsed : ℕ} (link configured connected : Bool)
    (hmigrates : d.migrates elapsed = true) (later : List DeviceEvent)
    {before since : List Entry} {asked : ℕ} {xid : UInt32}
    (hcheck : DhcpCheck (later.foldl step
      (d.policyStep elapsed link configured connected)).log before asked xid
      since) :
    (d.policyStep elapsed link configured connected).log <+: before := by
  have hpass := d.policyStep_action elapsed link configured connected
  rw [passAction_of_migrates hmigrates] at hpass
  have hprefix := log_grows.prefix_run
    (d.policyStep elapsed link configured connected) later
  rw [hpass.log_eq] at hprefix ⊢
  exact hcheck.prefix_before hprefix trivial (by simp)

/-- In every run an offer is taken up exactly when a fallback address is held
and the latest DHCP check, begun less than four seconds ago and not ended
since, had its DISCOVER sent and a matching offer watched after that.  The
check began after every earlier migration, so each leads to one at most. -/
theorem migration_answers_probe (mac : Mac) (events : List DeviceEvent)
    (elapsed : ℕ) :
    let d := events.foldl step (start mac)
    (d.migrates elapsed = true ↔ ∃ before since asked xid,
      MigrationHistory mac d (d.clock + elapsed) before since asked xid) ∧
    ∀ earlier later elapsed₀ link configured connected,
      events = earlier ++ .policy elapsed₀ link configured connected :: later →
      (earlier.foldl step (start mac)).migrates elapsed₀ = true →
      ∀ before since asked xid,
        MigrationHistory mac d (d.clock + elapsed) before since asked xid →
        ((earlier.foldl step (start mac)).policyStep elapsed₀ link configured
          connected).log <+: before := by
  constructor
  · exact (checkInv_run mac events).migrates_iff_history elapsed
  · rintro earlier later elapsed₀ link configured connected rfl hmigrates
      before since asked xid hhistory
    have hcheck := hhistory.check
    rw [List.foldl_append, List.foldl_cons] at hcheck
    exact migration_before link configured connected hmigrates later hcheck

end Device

end AutoIp
end PicoFi
