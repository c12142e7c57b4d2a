import PicoFi.BridgeConfig

/-!
# DHCP and link-local address policy

`AutoAddress` decides when the device asks for a lease, probes a link-local
candidate, claims it and gives it up.  Times are milliseconds of the
executor's microsecond clock, so no sum below leaves 64 bits and they are
kept as natural numbers.  `Moves` states once what a policy step can do; the
properties of the policy are read off it.
-/

namespace PicoFi
namespace AutoIp

open Buffer

/-! ## Candidates and ARP frames -/

/-- RFC 3927 candidate; probing and conflict detection are required before
claiming it. -/
def linkLocalCandidate (mac : Mac) (attempt : UInt32) : Ipv4 :=
  let hash := mac.toList.foldl
    (fun hash byte => (hash * 16777619) ^^^ byte.toUInt32)
    (attempt * 0x9e3779b9)
  ⟨169, 254, 1 + (hash % 254).toUInt8, (hash >>> 8).toUInt8⟩

theorem linkLocalCandidate_ne_zero (mac : Mac) (attempt : UInt32) :
    linkLocalCandidate mac attempt ≠ Ipv4.zero := by
  intro hzero
  have hfirst : (169 : UInt8) = 0 := congrArg Ipv4.o0 hzero
  exact absurd hfirst (by decide)

/-- Ethernet ARP probe or announcement, with an explicit hardware and
protocol shape. -/
def arpProbe (mac : Mac) (ip : Ipv4) (announce : Bool) : List UInt8 :=
  List.replicate 6 0xff ++ mac.toList ++ [8, 6, 0, 1, 8, 0, 6, 4, 0, 1] ++
    mac.toList ++ (if announce then ip.toList else [0, 0, 0, 0]) ++
    List.replicate 6 0 ++ ip.toList

def arpConflict (frame : List UInt8) (mac : Mac) (ip : Ipv4) : Bool :=
  decide (42 ≤ frame.length) &&
    slice frame 12 20 == [8, 6, 0, 1, 8, 0, 6, 4] &&
    (slice frame 20 22 == [0, 1] || slice frame 20 22 == [0, 2]) &&
    slice frame 22 28 != mac.toList &&
    (slice frame 28 32 == ip.toList ||
      (slice frame 28 32 == [0, 0, 0, 0] && slice frame 38 42 == ip.toList))

/-- A probe or an announcement conflicts for every other device on the
address, and never for its sender. -/
theorem arpConflict_arpProbe (sender mac : Mac) (ip : Ipv4) (announce : Bool) :
    arpConflict (arpProbe sender ip announce) mac ip = (sender != mac) := by
  have hmac : (sender.toList != mac.toList) = (sender != mac) := by
    rw [Bool.eq_iff_iff]
    simp only [bne_iff_ne, ne_eq, not_iff_not]
    exact ⟨Mac.toList_inj, congrArg Mac.toList⟩
  have hlength : (arpProbe sender ip announce).length = 42 := by
    cases announce <;> rfl
  have hshape : slice (arpProbe sender ip announce) 12 20 =
      [8, 6, 0, 1, 8, 0, 6, 4] := rfl
  have hrequest : slice (arpProbe sender ip announce) 20 22 = [0, 1] := rfl
  have hsender : slice (arpProbe sender ip announce) 22 28 =
      sender.toList := rfl
  have hclaims : slice (arpProbe sender ip announce) 28 32 = ip.toList ∨
      slice (arpProbe sender ip announce) 28 32 = [0, 0, 0, 0] ∧
        slice (arpProbe sender ip announce) 38 42 = ip.toList := by
    cases announce
    · exact .inr ⟨rfl, rfl⟩
    · exact .inl rfl
  rw [← hmac, arpConflict, hlength, hshape, hrequest, hsender]
  rcases hclaims with hown | ⟨hzero, htarget⟩
  · simp [hown]
  · simp [hzero, htarget]

/-! ## The policy -/

inductive Action
  | none
  | clear
  | dhcp
  | candidate (ip : Ipv4)
  | probe
  | claim (ip : Ipv4)
  | announce
  | dhcpProbe (xid : UInt32)
  | stopDhcpProbe
  deriving DecidableEq

inductive Phase
  | down
  | startDhcp
  | dhcp (untilMs : ℕ)
  | choose (after : ℕ)
  | probeDelay (untilMs : ℕ) (sent : ℕ)
  | probeTx (untilMs : ℕ) (sent : ℕ)
  | claimDelay (untilMs : ℕ)
  | online (fallback : Bool) (idleSince : ℕ) (announceAt : Option (ℕ × ℕ))
  deriving DecidableEq

structure AutoAddress where
  mac : Mac
  phase : Phase
  attempt : UInt32
  address : Ipv4
  nextDhcpProbe : ℕ
  dhcpProbeUntil : Option ℕ
  migrating : Bool
  failedMigrations : ℕ

namespace AutoAddress

def new (mac : Mac) : AutoAddress where
  mac := mac
  phase := .down
  attempt := 0
  address := Ipv4.zero
  nextDhcpProbe := 0
  dhcpProbeUntil := none
  migrating := false
  failedMigrations := 0

/-- A driver-validated offer for the current transaction interrupts a healthy
link-local session. -/
def dhcpOffered (p : AutoAddress) (now : ℕ) : AutoAddress × Action :=
  match p.phase with
  | .online true _ _ =>
      if p.dhcpProbeUntil.any (now < ·) then
        ({ p with dhcpProbeUntil := none, migrating := true, phase := .startDhcp },
          .clear)
      else (p, .none)
  | _ => (p, .none)

def probeInterval (p : AutoAddress) : ℕ :=
  15000 * 2 ^ min p.failedMigrations 4 + p.mac.b5.toNat * 4

def retry (p : AutoAddress) (now : ℕ) : AutoAddress × Action :=
  ({ p with phase := .choose (now + if p.attempt % 10 = 0 then 60000 else 0) },
    .clear)

def dhcpXid (p : AutoAddress) (now : ℕ) : UInt32 :=
  let mac : Ipv4 := ⟨p.mac.b2, p.mac.b3, p.mac.b4, p.mac.b5⟩
  max ((UInt32.ofNat now * 1664525) ^^^ mac.toBits) 1

/-- The end of the online branch: DHCP presence checks on a fallback
address. -/
def checkDhcp (p : AutoAddress) (now : ℕ) (pending : Bool) :
    AutoAddress × Action :=
  if p.dhcpProbeUntil.any (· ≤ now) then
    ({ p with dhcpProbeUntil := none }, .stopDhcpProbe)
  else if p.dhcpProbeUntil.isNone ∧ p.nextDhcpProbe ≤ now ∧ ¬pending then
    ({ p with
        nextDhcpProbe := now + p.probeInterval
        dhcpProbeUntil := some (now + 4000) },
      .dhcpProbe (p.dhcpXid now))
  else (p, .none)

/-- The announcement that is due, as the announcements left after it. -/
def announceDue (announceAt : Option (ℕ × ℕ)) (now : ℕ) (pending : Bool) :
    Option (Option (ℕ × ℕ)) :=
  match announceAt with
  | some (due, remaining) =>
      if due ≤ now ∧ ¬pending then
        some (if 1 < remaining then some (now + 2000, remaining - 1) else none)
      else none
  | none => none

def tickOnline (p : AutoAddress) (now : ℕ)
    (configured connected pending conflict : Bool)
    (fallback : Bool) (idleSince : ℕ) (announceAt : Option (ℕ × ℕ)) :
    AutoAddress × Action :=
  if (fallback ∧ conflict) ∨ ¬configured then
    ({ p with phase := .startDhcp }, .clear)
  else
    let idleSince := if connected then now else idleSince
    if fallback ∧ 60000 ≤ now - idleSince then
      ({ p with phase := .startDhcp }, .clear)
    else
      match announceDue announceAt now pending with
      | some left => ({ p with phase := .online fallback idleSince left }, .announce)
      | none =>
          let p := { p with phase := .online fallback idleSince announceAt }
          if fallback then p.checkDhcp now pending else (p, .none)

def tick (p : AutoAddress) (now : ℕ)
    (link configured connected pending conflict : Bool) :
    AutoAddress × Action :=
  if ¬link then
    if p.phase ≠ .down then ({ p with phase := .down }, .clear) else (p, .none)
  else
    match p.phase with
    | .down | .startDhcp =>
        ({ p with dhcpProbeUntil := none, phase := .dhcp (now + 10000) }, .dhcp)
    | .dhcp untilMs =>
        if configured then
          ({ p with
              migrating := false
              failedMigrations := 0
              phase := .online false now none },
            .none)
        else if untilMs ≤ now then
          ({ p with
              failedMigrations :=
                if p.migrating then min (p.failedMigrations + 1) 255
                else p.failedMigrations
              migrating := false
              phase := .choose now },
            .clear)
        else (p, .none)
    | .choose after =>
        if after ≤ now then
          let address := linkLocalCandidate p.mac p.attempt
          ({ p with
              address := address
              attempt := p.attempt + 1
              phase := .probeDelay (now + p.mac.b5.toNat * 3) 0 },
            .candidate address)
        else (p, .none)
    | .probeDelay untilMs sent =>
        if conflict then p.retry now
        else if untilMs ≤ now then
          ({ p with phase := .probeTx (now + 2000) sent }, .probe)
        else (p, .none)
    | .probeTx untilMs sent =>
        if conflict then p.retry now
        else if ¬pending then
          if sent + 1 = 3 then
            ({ p with phase := .claimDelay (now + 3000 + p.mac.b4.toNat) }, .none)
          else
            ({ p with
                phase := .probeDelay (now + 1000 + p.mac.b4.toNat) (sent + 1) },
              .none)
        else if untilMs ≤ now then p.retry now
        else (p, .none)
    | .claimDelay untilMs =>
        if conflict then p.retry now
        else if untilMs ≤ now then
          ({ p with
              nextDhcpProbe := now + p.probeInterval
              dhcpProbeUntil := none
              phase := .online true now (some (now, 2)) },
            .claim p.address)
        else (p, .none)
    | .online fallback idleSince announceAt =>
        p.tickOnline now configured connected pending conflict
          fallback idleSince announceAt

/-- One pass of the policy task: an offer that interrupts nothing is followed
by the ordinary tick. -/
def decideAction (p : AutoAddress) (now : ℕ)
    (offer link configured connected pending conflict : Bool) :
    AutoAddress × Action :=
  let offered := if offer then p.dhcpOffered now else (p, .none)
  if offered.2 = .none then
    offered.1.tick now link configured connected pending conflict
  else offered

end AutoAddress

/-! ## What a policy step can do -/

def Phase.Probing : Phase → Prop
  | .probeDelay _ _ | .probeTx _ _ | .claimDelay _ => True
  | _ => False

/-- The address is the device's own, taken without a lease. -/
def Phase.Fallback : Phase → Prop
  | .online true _ _ => True
  | _ => False

/-- A policy that gave its address up works on none. -/
theorem Phase.not_working {phase : Phase} (hphase : phase = .down ∨ phase = .startDhcp) :
    ¬(phase.Probing ∨ phase.Fallback) := by
  rcases hphase with rfl | rfl
  · exact fun hwork => hwork.elim id id
  · exact fun hwork => hwork.elim id id

/-- Phases before and after a step, with the action it returned. -/
inductive PhaseMove (mac : Mac) (now : ℕ) (pending conflict : Bool) :
    Phase → Action → Phase → Prop
  | relinquish {old new : Phase} (hnew : new = .down ∨ new = .startDhcp) :
      PhaseMove mac now pending conflict old .clear new
  | keep {phase : Phase}
      (hquiet : conflict = true → ¬phase.Probing ∧ ¬phase.Fallback) :
      PhaseMove mac now pending conflict phase .none phase
  | discover {old : Phase} (hold : old = .down ∨ old = .startDhcp) :
      PhaseMove mac now pending conflict old .dhcp (.dhcp (now + 10000))
  | leased {untilMs : ℕ} :
      PhaseMove mac now pending conflict (.dhcp untilMs) .none
        (.online false now none)
  | leaseless {untilMs : ℕ} (huntil : untilMs ≤ now) :
      PhaseMove mac now pending conflict (.dhcp untilMs) .clear (.choose now)
  | candidate {after untilMs : ℕ} {ip : Ipv4} (hafter : after ≤ now) :
      PhaseMove mac now pending conflict (.choose after) (.candidate ip)
        (.probeDelay untilMs 0)
  | retry {old : Phase} {after : ℕ} (hold : old.Probing) (hafter : now ≤ after) :
      PhaseMove mac now pending conflict old .clear (.choose after)
  | probe {untilMs sent : ℕ} (huntil : untilMs ≤ now)
      (hconflict : conflict = false) :
      PhaseMove mac now pending conflict (.probeDelay untilMs sent) .probe
        (.probeTx (now + 2000) sent)
  | probeSent {untilMs sent : ℕ} (hpending : pending = false)
      (hconflict : conflict = false) (hsent : sent + 1 ≠ 3) :
      PhaseMove mac now pending conflict (.probeTx untilMs sent) .none
        (.probeDelay (now + 1000 + mac.b4.toNat) (sent + 1))
  | lastProbeSent {untilMs sent : ℕ} (hpending : pending = false)
      (hconflict : conflict = false) (hsent : sent + 1 = 3) :
      PhaseMove mac now pending conflict (.probeTx untilMs sent) .none
        (.claimDelay (now + 3000 + mac.b4.toNat))
  | claim {untilMs : ℕ} {ip : Ipv4} {announceAt : Option (ℕ × ℕ)}
      (huntil : untilMs ≤ now) (hconflict : conflict = false) :
      PhaseMove mac now pending conflict (.claimDelay untilMs) (.claim ip)
        (.online true now announceAt)
  | fallback {idle idle' : ℕ} {announceAt announceAt' : Option (ℕ × ℕ)}
      {action : Action} (hconflict : conflict = false)
      (haction : action = .none ∨ action = .announce ∨
        (∃ xid, action = .dhcpProbe xid) ∨ action = .stopDhcpProbe) :
      PhaseMove mac now pending conflict (.online true idle announceAt) action
        (.online true idle' announceAt')
  | leaseHeld {idle idle' : ℕ} :
      PhaseMove mac now pending conflict (.online false idle none) .none
        (.online false idle' none)
  | leaseAnnounce {idle idle' due remaining : ℕ}
      {announceAt : Option (ℕ × ℕ)} {action : Action}
      (haction : action = .none ∨ action = .announce) :
      PhaseMove mac now pending conflict
        (.online false idle (some (due, remaining))) action
        (.online false idle' announceAt)

/-- The address a step works on: it changes with a candidate only, and a claim
is for the address the policy holds. -/
structure AddressMove (p p' : AutoAddress) (action : Action) : Prop where
  mac_eq : p'.mac = p.mac
  candidate_eq : ∀ ip, action = .candidate ip →
    p'.address = ip ∧ ip = linkLocalCandidate p.mac p.attempt
  address_eq : (∀ ip, action ≠ .candidate ip) → p'.address = p.address
  claim_eq : ∀ ip, action = .claim ip → ip = p.address

namespace AutoAddress

variable (p : AutoAddress) (now : ℕ)
variable (link configured connected pending conflict : Bool)

theorem retry_move (hprobing : p.phase.Probing) :
    PhaseMove p.mac now pending conflict p.phase (p.retry now).2
      (p.retry now).1.phase :=
  .retry hprobing (Nat.le_add_right _ _)

theorem checkDhcp_action :
    (p.checkDhcp now pending).1.phase = p.phase ∧
      ((p.checkDhcp now pending).2 = .none ∨
        (∃ xid, (p.checkDhcp now pending).2 = .dhcpProbe xid) ∨
        (p.checkDhcp now pending).2 = .stopDhcpProbe) := by
  unfold checkDhcp
  split
  · exact ⟨rfl, .inr (.inr rfl)⟩
  · split
    · exact ⟨rfl, .inr (.inl ⟨_, rfl⟩)⟩
    · exact ⟨rfl, .inl rfl⟩

/-- With the link up, an online policy takes the online step. -/
theorem tick_online {fallback : Bool} {idleSince : ℕ} {announceAt : Option (ℕ × ℕ)}
    (hphase : p.phase = .online fallback idleSince announceAt) :
    p.tick now true configured connected pending conflict =
      p.tickOnline now configured connected pending conflict
        fallback idleSince announceAt := by
  simp only [tick, hphase, not_true, if_false]

theorem tickOnline_move {fallback : Bool} {idleSince : ℕ}
    {announceAt : Option (ℕ × ℕ)}
    (hphase : p.phase = .online fallback idleSince announceAt) :
    PhaseMove p.mac now pending conflict p.phase
      (p.tickOnline now configured connected pending conflict
        fallback idleSince announceAt).2
      (p.tickOnline now configured connected pending conflict
        fallback idleSince announceAt).1.phase := by
  rw [hphase]
  unfold tickOnline
  split
  next => exact .relinquish (.inr rfl)
  next hstay =>
    simp only
    generalize (if connected = true then now else idleSince) = idle
    split
    next => exact .relinquish (.inr rfl)
    next =>
      have hconflict : fallback = true → conflict = false := by
        intro hfallback
        simp only [hfallback, true_and, not_or] at hstay
        simpa using hstay.1
      split
      next left hdue =>
        cases fallback with
        | true => exact .fallback (hconflict rfl) (.inr (.inl rfl))
        | false =>
            cases announceAt with
            | none => simp [announceDue] at hdue
            | some due => exact .leaseAnnounce (.inr rfl)
      next =>
        cases fallback with
        | true =>
            simp only [if_true]
            obtain ⟨hsame, haction⟩ := checkDhcp_action
              { p with phase := .online true idle announceAt } now pending
            rw [hsame]
            refine .fallback (hconflict rfl) ?_
            rcases haction with h | h | h
            · exact .inl h
            · exact .inr (.inr (.inl h))
            · exact .inr (.inr (.inr h))
        | false =>
            cases announceAt with
            | none => exact .leaseHeld
            | some due => exact .leaseAnnounce (.inl rfl)

theorem tick_move :
    PhaseMove p.mac now pending conflict p.phase
      (p.tick now link configured connected pending conflict).2
      (p.tick now link configured connected pending conflict).1.phase := by
  unfold tick
  split
  next =>
    split
    next => exact .relinquish (.inl rfl)
    next hdown =>
      refine .keep fun _ => ?_
      rw [not_not.mp hdown]
      exact ⟨id, id⟩
  next =>
    cases hphase : p.phase with
    | down => exact .discover (.inl rfl)
    | startDhcp => exact .discover (.inr rfl)
    | dhcp untilMs =>
        simp only
        split
        · exact .leased
        · split
          next huntil => exact .leaseless huntil
          next =>
            rw [hphase]
            exact .keep fun _ => ⟨id, id⟩
    | choose after =>
        simp only
        split
        next hafter => exact .candidate hafter
        next =>
          rw [hphase]
          exact .keep fun _ => ⟨id, id⟩
    | probeDelay untilMs sent =>
        simp only
        split
        next =>
          rw [← hphase]
          exact p.retry_move now pending conflict (by rw [hphase]; trivial)
        next hconflict =>
          split
          next huntil => exact .probe huntil (by simpa using hconflict)
          next =>
            rw [hphase]
            exact .keep fun h => absurd h hconflict
    | probeTx untilMs sent =>
        simp only
        split
        next =>
          rw [← hphase]
          exact p.retry_move now pending conflict (by rw [hphase]; trivial)
        next hconflict =>
          have hclear : conflict = false := by simpa using hconflict
          split
          next hpending =>
            have hsent : pending = false := by simpa using hpending
            split
            next hlast => exact .lastProbeSent hsent hclear hlast
            next hmore => exact .probeSent hsent hclear hmore
          next =>
            split
            next =>
              rw [← hphase]
              exact p.retry_move now pending conflict (by rw [hphase]; trivial)
            next =>
              rw [hphase]
              exact .keep fun h => absurd h hconflict
    | claimDelay untilMs =>
        simp only
        split
        next =>
          rw [← hphase]
          exact p.retry_move now pending conflict (by rw [hphase]; trivial)
        next hconflict =>
          split
          next huntil => exact .claim huntil (by simpa using hconflict)
          next =>
            rw [hphase]
            exact .keep fun h => absurd h hconflict
    | online fallback idleSince announceAt =>
        have hmove :=
          p.tickOnline_move now configured connected pending conflict hphase
        rwa [hphase] at hmove

theorem tick_address :
    AddressMove p (p.tick now link configured connected pending conflict).1
      (p.tick now link configured connected pending conflict).2 := by
  have hsame : ∀ (p' : AutoAddress) (action : Action),
      p'.mac = p.mac → p'.address = p.address →
      (∀ ip, action ≠ .candidate ip) →
      (∀ ip, action = .claim ip → ip = p.address) →
      AddressMove p p' action := by
    intro p' action hmac haddress hcandidate hclaim
    exact ⟨hmac, fun ip h => absurd h (hcandidate ip), fun _ => haddress, hclaim⟩
  unfold tick
  cases p.phase with
  | choose after =>
      simp only
      repeat' split
      all_goals try exact hsame _ _ rfl rfl (by simp) (by simp)
      refine ⟨rfl, ?_, fun h => absurd rfl (h _), by simp⟩
      intro ip hip
      cases hip
      exact ⟨rfl, rfl⟩
  | claimDelay untilMs =>
      simp only [retry]
      repeat' split
      all_goals exact hsame _ _ rfl rfl (by simp) (by simp)
  | online fallback idleSince announceAt =>
      simp only [tickOnline, checkDhcp]
      generalize (if connected = true then now else idleSince) = idle
      repeat' split
      all_goals exact hsame _ _ rfl rfl (by simp) (by simp)
  | _ =>
      simp only [retry]
      repeat' split
      all_goals exact hsame _ _ rfl rfl (by simp) (by simp)

theorem dhcpOffered_cases :
    p.dhcpOffered now = (p, .none) ∨
      (p.dhcpOffered now).1.phase = .startDhcp ∧
        (p.dhcpOffered now).1.mac = p.mac ∧
        (p.dhcpOffered now).1.address = p.address ∧
        (p.dhcpOffered now).2 = .clear := by
  unfold dhcpOffered
  repeat' split
  all_goals simp

theorem decideAction_move (offer : Bool) :
    PhaseMove p.mac now pending conflict p.phase
      (p.decideAction now offer link configured connected pending conflict).2
      (p.decideAction now offer link configured connected pending
        conflict).1.phase := by
  have htick := p.tick_move now link configured connected pending conflict
  unfold decideAction
  cases offer with
  | false => simpa using htick
  | true =>
      rcases p.dhcpOffered_cases now with hnone | ⟨hphase, -, -, haction⟩
      · simpa [hnone] using htick
      · simp only [if_true, haction, reduceCtorEq, if_false, hphase]
        exact .relinquish (.inr rfl)

theorem decideAction_address (offer : Bool) :
    AddressMove p
      (p.decideAction now offer link configured connected pending conflict).1
      (p.decideAction now offer link configured connected pending
        conflict).2 := by
  have htick := p.tick_address now link configured connected pending conflict
  unfold decideAction
  cases offer with
  | false => simpa using htick
  | true =>
      rcases p.dhcpOffered_cases now with hnone | ⟨-, hmac, haddress, haction⟩
      · simpa [hnone] using htick
      · simp only [if_true, haction, reduceCtorEq, if_false]
        exact ⟨hmac, by simp, fun _ => haddress, by simp⟩

end AutoAddress

end AutoIp
end PicoFi
