import PicoFi.ArpGuard

/-!
# The life of a fallback address

`FallbackMove` says what one step does with a fallback address: it is taken by
a claim, kept with its idle time, its announcements and its DHCP check, or
given up.  Its first use is the idle rule: an online address is relinquished
for the reasons its kind allows and for no other, and the idle time counts
from the claim or from the last tick that saw a session.
-/

namespace PicoFi
namespace AutoIp

/-! ## Moves of a fallback address -/

/-- A leased address is never announced. -/
def Phase.LeaseQuiet : Phase → Prop
  | .online false _ announceAt => announceAt = none
  | _ => True

theorem PhaseMove.leaseQuiet {mac : Mac} {now : ℕ} {pending conflict : Bool}
    {old new : Phase} {action : Action}
    (hmove : PhaseMove mac now pending conflict old action new)
    (hquiet : old.LeaseQuiet) : new.LeaseQuiet := by
  cases hmove with
  | relinquish hnew => rcases hnew with rfl | rfl <;> trivial
  | keep _ => exact hquiet
  | leased => rfl
  | leaseHeld => rfl
  | leaseAnnounce _ => simp [Phase.LeaseQuiet] at hquiet
  | _ => trivial

theorem PhaseMove.fallback_kept {mac : Mac} {now : ℕ} {pending conflict : Bool}
    {old new : Phase} {action : Action}
    (hmove : PhaseMove mac now pending conflict old action new)
    (hold : old.Fallback) (hclear : action ≠ .clear) :
    new.Fallback ∧
      (action = .none ∨ action = .announce ∨
        (∃ xid, action = .dhcpProbe xid) ∨ action = .stopDhcpProbe) := by
  cases hmove with
  | relinquish _ => exact absurd rfl hclear
  | retry _ _ => exact absurd rfl hclear
  | keep _ => exact ⟨hold, .inl rfl⟩
  | fallback _ haction => exact ⟨trivial, haction⟩
  | discover hphase => rcases hphase with rfl | rfl <;> exact absurd hold id
  | _ => exact absurd hold id

/-- `idle` of a tick that goes on: a session that is up restarts it. -/
def idleAfter (now : ℕ) (connected : Bool) (idle : ℕ) : ℕ :=
  if connected then now else idle

inductive FallbackMove (now : ℕ) (connected : Bool) (p p' : AutoAddress) :
    Action → Prop
  | leave {action : Action} (haction : action = .clear ∨ action = .dhcp)
      (hnew : ¬p'.phase.Fallback) : FallbackMove now connected p p' action
  | outside {action : Action}
      (haction : action = .none ∨ action = .probe ∨ ∃ ip, action = .candidate ip)
      (hold : ¬p.phase.Fallback) (hnew : ¬p'.phase.Fallback) :
      FallbackMove now connected p p' action
  | claim (hold : ¬p.phase.Fallback)
      (hnew : p'.phase = .online true now (some (now, 2)))
      (huntil : p'.dhcpProbeUntil = none) :
      FallbackMove now connected p p' (.claim p.address)
  | announce {idle due remaining : ℕ}
      (hold : p.phase = .online true idle (some (due, remaining)))
      (hdue : due ≤ now)
      (hnew : p'.phase = .online true (idleAfter now connected idle)
        (if 1 < remaining then some (now + 2000, remaining - 1) else none))
      (huntil : p'.dhcpProbeUntil = p.dhcpProbeUntil) :
      FallbackMove now connected p p' .announce
  | stay {idle : ℕ} {announceAt : Option (ℕ × ℕ)}
      (hold : p.phase = .online true idle announceAt)
      (hnew : p'.phase = .online true (idleAfter now connected idle) announceAt)
      (huntil : p'.dhcpProbeUntil = p.dhcpProbeUntil) :
      FallbackMove now connected p p' .none
  | ask {idle : ℕ} {announceAt : Option (ℕ × ℕ)} {xid : UInt32}
      (hold : p.phase = .online true idle announceAt)
      (hnew : p'.phase = .online true (idleAfter now connected idle) announceAt)
      (huntil : p'.dhcpProbeUntil = some (now + 4000)) :
      FallbackMove now connected p p' (.dhcpProbe xid)
  | stop {idle : ℕ} {announceAt : Option (ℕ × ℕ)}
      (hold : p.phase = .online true idle announceAt)
      (hnew : p'.phase = .online true (idleAfter now connected idle) announceAt)
      (huntil : p'.dhcpProbeUntil = none) :
      FallbackMove now connected p p' .stopDhcpProbe

/-- An address that is held after the step was claimed by it or was held
before, with the idle time carried over. -/
theorem FallbackMove.held {now : ℕ} {connected : Bool} {p p' : AutoAddress}
    {action : Action} (hmove : FallbackMove now connected p p' action)
    {idle : ℕ} {announceAt : Option (ℕ × ℕ)}
    (hnew : p'.phase = .online true idle announceAt) :
    (∃ ip, action = .claim ip ∧ idle = now) ∨
      ((∀ ip, action ≠ .claim ip) ∧ ∃ idle' announceAt',
        p.phase = .online true idle' announceAt' ∧
          idle = idleAfter now connected idle') := by
  have hfallback : p'.phase.Fallback := by rw [hnew]; trivial
  cases hmove with
  | leave _ hnot => exact absurd hfallback hnot
  | outside _ _ hnot => exact absurd hfallback hnot
  | claim _ hphase _ =>
      rw [hphase] at hnew
      cases hnew
      exact .inl ⟨_, rfl, rfl⟩
  | announce hold _ hphase _ | stay hold hphase _ | ask hold hphase _
  | stop hold hphase _ =>
      rw [hphase] at hnew
      cases hnew
      exact .inr ⟨by simp, _, _, hold, rfl⟩

/-- Away from a claim and from a held address, the phases tell the move. -/
theorem PhaseMove.outside {mac : Mac} {now : ℕ} {pending conflict : Bool}
    {old new : Phase} {action : Action}
    (hmove : PhaseMove mac now pending conflict old action new)
    (hquiet : old.LeaseQuiet) (hold : ¬old.Fallback)
    (hclaim : ∀ untilMs, old ≠ .claimDelay untilMs) :
    ¬new.Fallback ∧
      ((action = .clear ∨ action = .dhcp) ∨
        (action = .none ∨ action = .probe ∨ ∃ ip, action = .candidate ip)) := by
  cases hmove with
  | relinquish hnew => rcases hnew with rfl | rfl <;> simp [Phase.Fallback]
  | keep _ => simp [hold]
  | claim _ _ => exact absurd rfl (hclaim _)
  | fallback _ _ => exact absurd trivial hold
  | leaseAnnounce _ => simp [Phase.LeaseQuiet] at hquiet
  | _ => simp [Phase.Fallback]

namespace AutoAddress

variable (p : AutoAddress) (now : ℕ)
variable (link configured connected pending conflict : Bool)

theorem announceDue_eq_some {announceAt : Option (ℕ × ℕ)}
    {left : Option (ℕ × ℕ)}
    (hdue : announceDue announceAt now pending = some left) :
    ∃ due remaining, announceAt = some (due, remaining) ∧ due ≤ now ∧
      left = if 1 < remaining then some (now + 2000, remaining - 1) else none := by
  cases announceAt with
  | none => simp [announceDue] at hdue
  | some next =>
      simp only [announceDue, Option.ite_none_right_eq_some, Option.some.injEq]
        at hdue
      exact ⟨next.1, next.2, rfl, hdue.1.1, hdue.2.symm⟩

theorem checkDhcp_move {idle idle' : ℕ} {announceAt : Option (ℕ × ℕ)}
    (q : AutoAddress) (hold : q.phase = .online true idle announceAt)
    (huntil : p.dhcpProbeUntil = q.dhcpProbeUntil)
    (hphase : p.phase = .online true idle' announceAt)
    (hidle : idle' = idleAfter now connected idle) :
    FallbackMove now connected q (p.checkDhcp now pending).1
      (p.checkDhcp now pending).2 := by
  subst hidle
  unfold checkDhcp
  split
  · exact .stop hold hphase rfl
  · split
    · exact .ask hold hphase rfl
    · exact .stay hold hphase huntil

theorem tickOnline_fallback {idle : ℕ} {announceAt : Option (ℕ × ℕ)}
    (hphase : p.phase = .online true idle announceAt) :
    FallbackMove now connected p
      (p.tickOnline now configured connected pending conflict
        true idle announceAt).1
      (p.tickOnline now configured connected pending conflict
        true idle announceAt).2 := by
  unfold tickOnline
  split
  · exact .leave (.inl rfl) id
  · change FallbackMove now connected p
      (if true ∧ 60000 ≤ now - idleAfter now connected idle then _ else _ :
        AutoAddress × Action).1
      (if true ∧ 60000 ≤ now - idleAfter now connected idle then _ else _ :
        AutoAddress × Action).2
    split
    · exact .leave (.inl rfl) id
    · split
      next left hdue =>
        obtain ⟨due, remaining, rfl, hle, rfl⟩ :=
          announceDue_eq_some now pending hdue
        exact .announce hphase hle rfl rfl
      next =>
        exact checkDhcp_move _ now connected pending p hphase rfl rfl rfl

theorem linkDown_fallback (hphase : p.phase ≠ .down) :
    FallbackMove now connected p
      (p.tick now false configured connected pending conflict).1
      (p.tick now false configured connected pending conflict).2 := by
  rw [tick, if_pos (by decide), if_pos hphase]
  exact .leave (.inl rfl) id

theorem claimDelay_fallback {untilMs : ℕ} (hphase : p.phase = .claimDelay untilMs) :
    FallbackMove now connected p
      (p.tick now link configured connected pending conflict).1
      (p.tick now link configured connected pending conflict).2 := by
  have hold : ¬p.phase.Fallback := by
    rw [hphase]
    exact id
  cases link with
  | false =>
      exact p.linkDown_fallback now configured connected pending conflict (by simp [hphase])
  | true =>
      simp only [tick, hphase, not_true, if_false]
      split
      · exact .leave (.inl rfl) id
      · split
        · exact .claim hold rfl rfl
        · exact .outside (.inl rfl) hold hold

theorem tick_fallback (hquiet : p.phase.LeaseQuiet) :
    FallbackMove now connected p
      (p.tick now link configured connected pending conflict).1
      (p.tick now link configured connected pending conflict).2 := by
  have hmove := p.tick_move now link configured connected pending conflict
  have houtside (hold : ¬p.phase.Fallback)
      (hclaim : ∀ untilMs, p.phase ≠ .claimDelay untilMs) :
      FallbackMove now connected p
        (p.tick now link configured connected pending conflict).1
        (p.tick now link configured connected pending conflict).2 := by
    obtain ⟨hnew, hleave | hstay⟩ := hmove.outside hquiet hold hclaim
    · exact .leave hleave hnew
    · exact .outside hstay hold hnew
  cases hphase : p.phase with
  | claimDelay untilMs =>
      exact p.claimDelay_fallback now link configured connected pending conflict
        hphase
  | online fallback idle announceAt =>
      cases fallback with
      | false => exact houtside (by rw [hphase]; exact id) (by simp [hphase])
      | true =>
          cases link with
          | false =>
              exact p.linkDown_fallback now configured connected pending conflict
                (by simp [hphase])
          | true =>
              rw [p.tick_online now configured connected pending conflict hphase]
              exact p.tickOnline_fallback now configured connected pending
                conflict hphase
  | _ => exact houtside (by rw [hphase]; exact id) (by simp [hphase])

/-- An offer that is taken up gives the address up inside the window of its
check; any other changes nothing. -/
theorem dhcpOffered_fallback :
    p.dhcpOffered now = (p, .none) ∨
      p.phase.Fallback ∧
        (∃ untilMs, p.dhcpProbeUntil = some untilMs ∧ now < untilMs) ∧
        (p.dhcpOffered now).2 = .clear ∧
        (p.dhcpOffered now).1.phase = .startDhcp := by
  unfold dhcpOffered
  split
  next hphase =>
    split
    next hopen =>
      obtain ⟨untilMs, huntil, hlt⟩ := (Option.any_eq_true _ _).mp hopen
      rw [hphase]
      exact .inr ⟨trivial, ⟨untilMs, huntil, by simpa using hlt⟩, rfl, rfl⟩
    next => exact .inl rfl
  next => exact .inl rfl

theorem dhcpOffered_eq_clear_iff :
    (p.dhcpOffered now).2 = .clear ↔ p.phase.Fallback ∧
      ∃ untilMs, p.dhcpProbeUntil = some untilMs ∧ now < untilMs := by
  constructor
  · intro hclear
    rcases p.dhcpOffered_fallback now with hnone | ⟨hheld, hopen, -, -⟩
    · simp [hnone] at hclear
    · exact ⟨hheld, hopen⟩
  · rintro ⟨hheld, untilMs, huntil, hlt⟩
    cases hphase : p.phase with
    | online fallback idle announceAt =>
        cases fallback with
        | true => simp [dhcpOffered, hphase, huntil, hlt]
        | false => simp [hphase, Phase.Fallback] at hheld
    | _ => simp [hphase, Phase.Fallback] at hheld

theorem decideAction_fallback (hquiet : p.phase.LeaseQuiet) (offer : Bool) :
    FallbackMove now connected p
      (p.decideAction now offer link configured connected pending conflict).1
      (p.decideAction now offer link configured connected pending
        conflict).2 := by
  have htick :=
    p.tick_fallback now link configured connected pending conflict hquiet
  unfold decideAction
  cases offer with
  | false => simpa using htick
  | true =>
      rcases p.dhcpOffered_fallback now with hnone | ⟨-, -, haction, hphase⟩
      · simpa [hnone] using htick
      · simp only [if_true, haction, reduceCtorEq, if_false]
        refine .leave (.inl rfl) ?_
        rw [hphase]
        exact id

/-! ## When an online address is cleared -/

theorem tick_lease_clear {idle : ℕ} (hphase : p.phase = .online false idle none) :
    ((p.tick now link configured connected pending conflict).2 = .clear ↔
      link = false ∨ configured = false) ∧
    ((p.tick now link configured connected pending conflict).2 = .clear ∨
      (p.tick now link configured connected pending conflict).2 = .none) := by
  cases link <;> cases configured <;>
    simp [tick, hphase, tickOnline, announceDue]

theorem tick_fallback_clear {idle : ℕ} {announceAt : Option (ℕ × ℕ)}
    (hphase : p.phase = .online true idle announceAt) :
    (p.tick now link configured connected pending conflict).2 = .clear ↔
      link = false ∨ configured = false ∨ conflict = true ∨
        60000 ≤ now - idleAfter now connected idle := by
  have hcheck (q : AutoAddress) : (q.checkDhcp now pending).2 ≠ .clear := by
    rcases (q.checkDhcp_action now pending).2 with h | ⟨xid, h⟩ | h <;> simp [h]
  cases link with
  | false => simp [tick, hphase]
  | true =>
      simp only [p.tick_online now configured connected pending conflict hphase, tickOnline,
        true_and]
      change _ ↔ _ ∨ _ ∨ _ ∨ 60000 ≤ now - (if connected = true then now else idle)
      generalize (if connected = true then now else idle) = active
      split
      next hgiven =>
        rcases hgiven with hconflict | hconfigured
        · simp [hconflict]
        · simp [by simpa using hconfigured]
      next hkept =>
        obtain ⟨hconflict, hconfigured⟩ := not_or.mp hkept
        split
        next hidle => simp [hidle]
        next hidle =>
          simp only [Bool.not_eq_true] at hconflict
          simp only [hconflict, not_not.mp hconfigured, hidle, Bool.true_eq_false,
            Bool.false_eq_true, or_self, iff_false]
          split
          · simp
          · exact hcheck _

end AutoAddress

/-! ## Runs of the policy alone -/

structure Tick where
  now : ℕ
  connected : Bool
  action : Action
  deriving DecidableEq

structure PolicyRun where
  policy : AutoAddress
  clock : ℕ
  history : List Tick

inductive PolicyEvent
  | tick (elapsed : ℕ) (link configured connected pending conflict : Bool)
  | offered (elapsed : ℕ)
  deriving DecidableEq

def claimTimes (history : List Tick) : List ℕ :=
  history.filterMap fun tick =>
    match tick.action with
    | .claim _ => some tick.now
    | _ => none

def upTimes (history : List Tick) : List ℕ :=
  (history.filter Tick.connected).map Tick.now

/-- The later of a claim and the last tick that saw a session up. -/
def lastActive (history : List Tick) (claimed : ℕ) : ℕ :=
  max claimed ((upTimes history).getLast?.getD claimed)

theorem claimTimes_concat_claim (history : List Tick) (now : ℕ)
    (connected : Bool) (ip : Ipv4) :
    claimTimes (history ++ [⟨now, connected, .claim ip⟩]) =
      claimTimes history ++ [now] := by
  simp [claimTimes]

theorem claimTimes_concat {history : List Tick} {now : ℕ} {connected : Bool}
    {action : Action} (haction : ∀ ip, action ≠ .claim ip) :
    claimTimes (history ++ [⟨now, connected, action⟩]) = claimTimes history := by
  cases action with
  | claim ip => exact absurd rfl (haction ip)
  | _ => simp [claimTimes]

theorem exists_tick_of_claimTimes {history : List Tick} {claimed : ℕ}
    (hclaimed : (claimTimes history).getLast? = some claimed) :
    ∃ tick ∈ history, tick.now = claimed := by
  have hmem := List.mem_of_getLast? hclaimed
  simp only [claimTimes, List.mem_filterMap] at hmem
  obtain ⟨tick, htick, hnow⟩ := hmem
  split at hnow
  · exact ⟨tick, htick, Option.some.inj hnow⟩
  · simp at hnow

theorem lastActive_concat {history : List Tick} {now claimed : ℕ}
    {connected : Bool} {action : Action} (hclaimed : claimed ≤ now) :
    lastActive (history ++ [⟨now, connected, action⟩]) claimed =
      idleAfter now connected (lastActive history claimed) := by
  cases connected with
  | false => simp [lastActive, upTimes, idleAfter]
  | true => simp [lastActive, upTimes, idleAfter, hclaimed]

theorem lastActive_now {history : List Tick} {now : ℕ}
    (hpast : ∀ tick ∈ history, tick.now ≤ now) : lastActive history now = now := by
  apply max_eq_left
  cases hlast : (upTimes history).getLast? with
  | none => exact Nat.le_refl now
  | some up =>
      have hmem := List.mem_of_getLast? hlast
      simp only [upTimes, List.mem_map, List.mem_filter] at hmem
      obtain ⟨tick, ⟨htick, -⟩, rfl⟩ := hmem
      exact hpast tick htick

namespace PolicyRun

def start (mac : Mac) : PolicyRun where
  policy := AutoAddress.new mac
  clock := 0
  history := []

def step (r : PolicyRun) : PolicyEvent → PolicyRun
  | .tick elapsed link configured connected pending conflict =>
      let now := r.clock + elapsed
      let ticked := r.policy.tick now link configured connected pending conflict
      { policy := ticked.1
        clock := now
        history := r.history ++ [⟨now, connected, ticked.2⟩] }
  | .offered elapsed =>
      let now := r.clock + elapsed
      { r with policy := (r.policy.dhcpOffered now).1, clock := now }

/-- The idle time of a fallback address is the one its history shows. -/
structure IdleKept (r : PolicyRun) : Prop where
  quiet : r.policy.phase.LeaseQuiet
  past : ∀ tick ∈ r.history, tick.now ≤ r.clock
  idle : ∀ idle announceAt, r.policy.phase = .online true idle announceAt →
    ∃ claimed, (claimTimes r.history).getLast? = some claimed ∧
      idle = lastActive r.history claimed

namespace IdleKept

theorem ofStart (mac : Mac) : (start mac).IdleKept := by
  constructor
  · trivial
  · simp [start]
  · simp [start, AutoAddress.new]

theorem afterTick {r : PolicyRun} (hkept : r.IdleKept) (elapsed : ℕ)
    (link configured connected pending conflict : Bool) :
    (r.step (.tick elapsed link configured connected pending
      conflict)).IdleKept := by
  have hfallback := r.policy.tick_fallback (r.clock + elapsed) link configured
    connected pending conflict hkept.quiet
  have hpast : ∀ tick ∈ (r.step (.tick elapsed link configured connected pending
      conflict)).history, tick.now ≤ r.clock + elapsed := by
    intro tick htick
    rcases List.mem_append.mp htick with h | h
    · exact (hkept.past tick h).trans (Nat.le_add_right _ _)
    · rw [List.mem_singleton.mp h]
  constructor
  · exact (r.policy.tick_move _ _ _ _ _ _).leaseQuiet hkept.quiet
  · exact hpast
  · intro idle announceAt hphase
    simp only [step] at hphase hpast ⊢
    generalize r.policy.tick (r.clock + elapsed) link configured connected
      pending conflict = ticked at hfallback hphase hpast ⊢
    rcases hfallback.held hphase with
      ⟨ip, haction, rfl⟩ | ⟨haction, idle', announceAt', hold, rfl⟩
    · refine ⟨r.clock + elapsed, ?_, (lastActive_now hpast).symm⟩
      rw [haction, claimTimes_concat_claim]
      exact List.getLast?_concat
    · obtain ⟨claimed, hclaimed, rfl⟩ := hkept.idle idle' announceAt' hold
      obtain ⟨tick, htick, rfl⟩ := exists_tick_of_claimTimes hclaimed
      refine ⟨tick.now, ?_, ?_⟩
      · rw [claimTimes_concat haction]
        exact hclaimed
      · symm
        apply lastActive_concat
        exact (hkept.past tick htick).trans (Nat.le_add_right _ _)

theorem afterOffered {r : PolicyRun} (hkept : r.IdleKept) (elapsed : ℕ) :
    (r.step (.offered elapsed)).IdleKept := by
  have hpast : ∀ tick ∈ r.history, tick.now ≤ r.clock + elapsed := by
    intro tick htick
    exact (hkept.past tick htick).trans (Nat.le_add_right _ _)
  rcases r.policy.dhcpOffered_fallback (r.clock + elapsed) with
    hnone | ⟨-, -, -, hphase⟩
  · constructor
    · simpa only [step, hnone] using hkept.quiet
    · exact hpast
    · simpa only [step, hnone] using hkept.idle
  · constructor
    · simp only [step, hphase, Phase.LeaseQuiet]
    · exact hpast
    · simp [step, hphase]

theorem afterStep {r : PolicyRun} (hkept : r.IdleKept) (event : PolicyEvent) :
    (r.step event).IdleKept := by
  cases event with
  | tick elapsed link configured connected pending conflict =>
      exact hkept.afterTick elapsed link configured connected pending conflict
  | offered elapsed => exact hkept.afterOffered elapsed

end IdleKept

/-- What the next tick of an online policy may do. -/
structure OnlineTick (r : PolicyRun) (now : ℕ)
    (link configured connected conflict : Bool) (fallback : Bool)
    (ticked : AutoAddress × Action) : Prop where
  lease : fallback = false →
    (ticked.2 = .clear ↔ link = false ∨ configured = false) ∧
      (ticked.2 = .clear ∨ ticked.2 = .none)
  fallback_clear : fallback = true →
    ∃ claimed, (claimTimes r.history).getLast? = some claimed ∧
      (ticked.2 = .clear ↔ link = false ∨ configured = false ∨
        conflict = true ∨
        (connected = false ∧ 60000 ≤ now - lastActive r.history claimed))
  /-- A session on a fallback address lives through announcements and DHCP
  checks. -/
  fallback_kept : fallback = true → ticked.2 ≠ .clear →
    ticked.1.phase.Fallback ∧
      (ticked.2 = .none ∨ ticked.2 = .announce ∨
        (∃ xid, ticked.2 = .dhcpProbe xid) ∨ ticked.2 = .stopDhcpProbe)

/-- In every run of ticks and offers with time that does not go back, an
online policy gives its address up for the reasons its kind of address allows
and for no other. -/
theorem online_tick (mac : Mac) (events : List PolicyEvent)
    {fallback : Bool} {idle : ℕ} {announceAt : Option (ℕ × ℕ)}
    (hphase : (events.foldl step (start mac)).policy.phase =
      .online fallback idle announceAt)
    (elapsed : ℕ) (link configured connected pending conflict : Bool) :
    let r := events.foldl step (start mac)
    let now := r.clock + elapsed
    OnlineTick r now link configured connected conflict fallback
      (r.policy.tick now link configured connected pending conflict) := by
  have hkept : (events.foldl step (start mac)).IdleKept :=
    Runs.invariant (fun _ event hkept => hkept.afterStep event)
      (IdleKept.ofStart mac) events
  generalize events.foldl step (start mac) = run at hphase hkept
  intro r now
  constructor
  · rintro rfl
    have hquiet := hkept.quiet
    rw [hphase] at hquiet
    obtain rfl : announceAt = none := hquiet
    exact r.policy.tick_lease_clear now link configured connected pending
      conflict hphase
  · rintro rfl
    obtain ⟨claimed, hclaimed, rfl⟩ := hkept.idle idle announceAt hphase
    refine ⟨claimed, hclaimed, ?_⟩
    rw [r.policy.tick_fallback_clear now link configured connected pending
      conflict hphase]
    cases connected with
    | false => simp [idleAfter, r]
    | true => simp [idleAfter]
  · rintro rfl hclear
    have hmove :=
      r.policy.tick_move now link configured connected pending conflict
    exact hmove.fallback_kept (by rw [hphase]; trivial) hclear

def leaselessTicks : List PolicyEvent :=
  [0, 10000, 20, 15, 20, 1004, 20, 1004, 20, 3004].map fun elapsed =>
    .tick elapsed true false false false false

theorem online_tick_leaseless :
    let r := leaselessTicks.foldl step (start ⟨2, 1, 2, 3, 4, 5⟩)
    let now := r.clock + 60000
    OnlineTick r now true true true false true
      (r.policy.tick now true true true false false) := by
  have hphase : (leaselessTicks.foldl step
      (start ⟨2, 1, 2, 3, 4, 5⟩)).policy.phase =
        .online true 15107 (some (15107, 2)) := by decide
  exact online_tick ⟨2, 1, 2, 3, 4, 5⟩ leaselessTicks hphase 60000 true true
    true false false

end PolicyRun

/-! ## Passes of a device -/

namespace Device

theorem Coherent.leaseQuiet {d : Device} (hcoherent : d.Coherent) :
    d.policy.phase.LeaseQuiet := by
  have hphase := hcoherent.phase
  generalize d.policy.phase = phase at hphase ⊢
  cases phase with
  | online fallback idle announceAt =>
      cases fallback with
      | true => trivial
      | false => exact hphase.2
  | _ => trivial

def passAction (d : Device) (elapsed : ℕ) (link configured connected : Bool) :
    Action :=
  (d.policy.decideAction (d.clock + elapsed) d.probe.takeDhcpOffer.2 link
    configured connected d.probe.takeDhcpOffer.1.pending
    d.probe.takeDhcpOffer.1.conflicted).2

theorem policyStep_action (d : Device) (elapsed : ℕ)
    (link configured connected : Bool) :
    d.PolicyPass (d.policyStep elapsed link configured connected) elapsed
      (d.passAction elapsed link configured connected) :=
  ⟨d.policy.decideAction_move _ link configured connected _ _ _,
    d.policy.decideAction_address _ link configured connected _ _ _,
    rfl, rfl, rfl⟩

theorem Coherent.policyStep_fallback {d : Device} (hcoherent : d.Coherent)
    (elapsed : ℕ) (link configured connected : Bool) :
    FallbackMove (d.clock + elapsed) connected d.policy
      (d.policyStep elapsed link configured connected).policy
      (d.passAction elapsed link configured connected) :=
  d.policy.decideAction_fallback _ _ _ _ _ _ hcoherent.leaseQuiet _

end Device

end AutoIp
end PicoFi
