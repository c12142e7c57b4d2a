import PicoFi.AddressPolicy
import PicoFi.LogHistory
import PicoFi.StepRuns

/-!
# Address conflicts and probes at the driver

`ProbeState` is shared by the policy task and the guarded driver: the policy
posts a candidate and a command, the driver sends the frame when it may and
watches received frames.  A `Device` is the policy task, the shared state and
a log of what happened.  One pass of the task and one driver call are atomic
on the single executor, so they are the steps of the system; link, lease,
session and transmit readiness are read anew by each step.
-/

namespace PicoFi
namespace AutoIp

open Buffer

/-! ## DHCP presence probes -/

namespace DhcpProbe

abbrev ether : ℕ := 14
abbrev ipHeader : ℕ := 20
abbrev udpHeader : ℕ := 8
abbrev bootpStart : ℕ := ether + ipHeader + udpHeader
abbrev frameSize : ℕ := bootpStart + 300

def cookie : List UInt8 := [99, 130, 83, 99]

/-- `u16::to_be_bytes` -/
def be16 (value : ℕ) : List UInt8 :=
  [UInt8.ofNat (value / 256), UInt8.ofNat value]

/-- `u16::from_be_bytes` of two bytes of a buffer; `none` where an index
would panic. -/
def readBe16 (bytes : List UInt8) (i : ℕ) : Option ℕ := do
  let high ← bytes[i]?
  let low ← bytes[i + 1]?
  return high.toNat * 256 + low.toNat

/-- The 16-bit words of an IPv4 packet sum to less than 2^32. -/
def sum : List UInt8 → ℕ → ℕ
  | a :: b :: bytes, value => sum bytes (value + (a.toNat * 256 + b.toNat))
  | [last], value => value + last.toNat * 256
  | [], value => value

def finish (value : ℕ) : ℕ :=
  if 0xffff < value then finish (value % 65536 + value / 65536)
  else 0xffff - value
termination_by value
decreasing_by omega

/-- DISCOVER with broadcast replies requested, not a lease request. -/
def discover (mac : Mac) (xid : UInt32) : List UInt8 :=
  let frame := List.replicate frameSize 0
  let frame := splice frame 0 (List.replicate 6 0xff)
  let frame := splice frame 6 mac.toList
  let frame := splice frame 12 [8, 0]
  let frame := splice frame ether [0x45]
  let frame := splice frame (ether + 2) (be16 (ipHeader + udpHeader + 300))
  let frame := splice frame (ether + 8) [64, 17]
  let frame := splice frame (ether + 16) (List.replicate 4 255)
  let checksum := finish (sum (slice frame ether (ether + ipHeader)) 0)
  let frame := splice frame (ether + 10) (be16 checksum)
  let frame := splice frame (ether + ipHeader) (be16 68)
  let frame := splice frame (ether + ipHeader + 2) (be16 67)
  let frame := splice frame (ether + ipHeader + 4) (be16 (udpHeader + 300))
  let frame := splice frame bootpStart [1, 1, 6]
  let frame := splice frame (bootpStart + 4) (Ipv4.ofBits xid).toList
  let frame := splice frame (bootpStart + 10) [0x80]
  let frame := splice frame (bootpStart + 28) mac.toList
  let frame := splice frame (bootpStart + 236) cookie
  let frame := splice frame (bootpStart + 240) [53, 1, 1, 61, 7, 1]
  let frame := splice frame (bootpStart + 246) mac.toList
  splice frame (bootpStart + 252) [55, 3, 1, 3, 6, 255]

def unicast (ip : List UInt8) : Bool :=
  ip.length == 4 && ip.getD 0 0 != 0 && ip.getD 0 0 != 127 &&
    decide (ip.getD 0 0 < 224)

/-- The option scan of an offer, over what is left of the options. -/
def scanOptions : List UInt8 → (offer server : Bool) → Bool
  | [], _, _ => false
  | kind :: rest, offer, server =>
      if kind = 255 then offer && server
      else if kind = 0 then scanOptions rest offer server
      else
        match rest with
        | [] => false
        | length :: rest =>
            if rest.length < length.toNat then false
            else
              let value := rest.take length.toNat
              if kind = 53 then
                if offer ∨ value ≠ [2] then false
                else scanOptions (rest.drop length.toNat) true server
              else if kind = 54 then
                if server ∨ ¬unicast value then false
                else scanOptions (rest.drop length.toNat) offer true
              else scanOptions (rest.drop length.toNat) offer server
termination_by options => options.length
decreasing_by all_goals simp_wf <;> omega

/-- Reject stale transactions, other clients, malformed lengths, fragments
and checksum failures.  The answer is `none` where an index would panic. -/
def isOffer (frame : List UInt8) (mac : Mac) (xid : UInt32) : Option Bool := do
  if xid = 0 ∨ frame.length < bootpStart + 243 then return false
  if (← slice? frame 12 14) ≠ [8, 0] then return false
  let target ← slice? frame 0 6
  if target ≠ mac.toList ∧ target ≠ List.replicate 6 255 then return false
  let ip ← slice? frame ether frame.length
  let first ← ip[0]?
  let ihl := first.toNat % 16 * 4
  let total ← readBe16 ip 2
  if first.toNat / 16 ≠ 4 ∨ ihl < ipHeader ∨
      total < ihl + udpHeader + 243 ∨ ip.length < total then
    return false
  if (← ip[9]?) ≠ 17 then return false
  if (← readBe16 ip 6) % 0x4000 ≠ 0 then return false
  if ¬unicast (← slice? ip 12 16) then return false
  if finish (sum (← slice? ip 0 ihl) 0) ≠ 0 then return false
  let udp ← slice? ip ihl total
  let length ← readBe16 udp 4
  if (← slice? udp 0 4) ≠ [0, 67, 0, 68] ∨ length < udpHeader + 243 ∨
      length ≠ udp.length then
    return false
  if (← slice? udp 6 8) ≠ [0, 0] ∧
      finish (sum udp (sum (← slice? ip 12 20) (17 + length))) ≠ 0 then
    return false
  let bootp ← slice? udp udpHeader udp.length
  if (← slice? bootp 0 3) ≠ [2, 1, 6] then return false
  if (← slice? bootp 4 8) ≠ (Ipv4.ofBits xid).toList then return false
  if (← slice? bootp 28 34) ≠ mac.toList then return false
  if ¬unicast (← slice? bootp 16 20) then return false
  if (← slice? bootp 16 18) = [169, 254] then return false
  if (← slice? bootp 236 240) ≠ cookie then return false
  return scanOptions (← slice? bootp 240 bootp.length) false false

end DhcpProbe

/-! ## Frames told apart -/

def etherType (frame : List UInt8) : List UInt8 := slice frame 12 14

theorem etherType_arpProbe (mac : Mac) (ip : Ipv4) (announce : Bool) :
    etherType (arpProbe mac ip announce) = [8, 6] := rfl

namespace DhcpProbe

/-- A frame of the size of a DISCOVER with the IPv4 ether type. -/
structure Typed (frame : List UInt8) : Prop where
  length_eq : frame.length = frameSize
  type_eq : etherType frame = [8, 0]

theorem Typed.splice {frame src : List UInt8} {start : ℕ} (hframe : Typed frame)
    (hstart : ether ≤ start) (hfit : start + src.length ≤ frameSize) :
    Typed (splice frame start src) := by
  constructor
  · exact length_splice_of_length hframe.length_eq hfit
  · have hlong : ether ≤ (frame.take start).length := by
      rw [List.length_take, hframe.length_eq]
      exact le_min hstart (by decide)
    rw [etherType, slice, Buffer.splice, List.append_assoc,
      List.take_append_of_le_length hlong, List.take_take, min_eq_left hstart]
    exact hframe.type_eq

theorem discover_typed (mac : Mac) (xid : UInt32) : Typed (discover mac xid) := by
  unfold discover
  iterate 16
    refine Typed.splice ?_ (by decide) (Nat.le_of_ble_eq_true rfl)
  constructor
  · iterate 3
      refine length_splice_of_length ?_ (Nat.le_of_ble_eq_true rfl)
    exact List.length_replicate
  · simp [etherType, slice, Buffer.splice, Mac.toList]

theorem arpProbe_ne_discover (mac mac' : Mac) (ip : Ipv4) (announce : Bool)
    (xid : UInt32) : arpProbe mac ip announce ≠ discover mac' xid := by
  intro hsame
  have htype := (discover_typed mac' xid).type_eq
  rw [← hsame, etherType_arpProbe] at htype
  exact absurd htype (by decide)

end DhcpProbe

/-! ## The shared probe state -/

/-- `candidate` is kept as the bytes of its big-endian word, zero for none. -/
structure ProbeState where
  mac : Mac
  candidate : Ipv4
  command : UInt8
  conflict : Bool
  dhcpXid : UInt32
  dhcpPending : Bool
  dhcpOffer : Bool

namespace ProbeState

def new (mac : Mac) : ProbeState where
  mac := mac
  candidate := Ipv4.zero
  command := 0
  conflict := false
  dhcpXid := 0
  dhcpPending := false
  dhcpOffer := false

def setCandidate (s : ProbeState) (ip : Ipv4) : ProbeState :=
  { s with conflict := false, candidate := ip }

def stopDhcpProbe (s : ProbeState) : ProbeState :=
  { s with dhcpXid := 0, dhcpPending := false, dhcpOffer := false }

def clear (s : ProbeState) : ProbeState :=
  { s.stopDhcpProbe with command := 0, candidate := Ipv4.zero, conflict := false }

def request (s : ProbeState) (announce : Bool) : ProbeState :=
  { s with command := if announce then 2 else 1 }

def pending (s : ProbeState) : Bool := s.command != 0

def conflicted (s : ProbeState) : Bool := s.conflict

def requestDhcpProbe (s : ProbeState) (xid : UInt32) : ProbeState :=
  { s with dhcpOffer := false, dhcpXid := xid, dhcpPending := true }

def takeDhcpOffer (s : ProbeState) : ProbeState × Bool :=
  ({ s with dhcpOffer := false }, s.dhcpOffer)

def inspect (s : ProbeState) (bytes : List UInt8) : ProbeState :=
  { s with
    dhcpOffer := s.dhcpOffer || (s.dhcpXid != 0 && !s.dhcpPending &&
      DhcpProbe.isOffer bytes s.mac s.dhcpXid == some true)
    conflict := s.conflict || (s.candidate != Ipv4.zero &&
      arpConflict bytes s.mac s.candidate) }

/-- `ArpGuard::service`, with the driver's link state and whether it hands
out a transmit token; the frame it sent, if any. -/
def service (s : ProbeState) (linkUp ready : Bool) :
    ProbeState × Option (List UInt8) :=
  if ¬linkUp then (s, none)
  else if s.command ≠ 0 ∧ s.candidate ≠ Ipv4.zero then
    if ready then
      ({ s with command := 0 },
        some (arpProbe s.mac s.candidate (s.command == 2)))
    else (s, none)
  else if s.dhcpPending then
    if ready then
      ({ s with dhcpPending := false },
        some (DhcpProbe.discover s.mac s.dhcpXid))
    else (s, none)
  else (s, none)

theorem service_cases (s : ProbeState) (linkUp ready : Bool) :
    s.service linkUp ready = (s, none) ∨
      (s.command ≠ 0 ∧ s.candidate ≠ Ipv4.zero ∧
        s.service linkUp ready = ({ s with command := 0 },
          some (arpProbe s.mac s.candidate (s.command == 2)))) ∨
      (s.dhcpPending = true ∧
        s.service linkUp ready = ({ s with dhcpPending := false },
          some (DhcpProbe.discover s.mac s.dhcpXid))) := by
  unfold service
  by_cases hlink : ¬linkUp
  · exact .inl (if_pos hlink)
  · rw [if_neg hlink]
    by_cases hcommand : s.command ≠ 0 ∧ s.candidate ≠ Ipv4.zero
    · rw [if_pos hcommand]
      cases ready with
      | true => exact .inr (.inl ⟨hcommand.1, hcommand.2, rfl⟩)
      | false => exact .inl rfl
    · rw [if_neg hcommand]
      cases hpending : s.dhcpPending with
      | false => exact .inl rfl
      | true =>
          cases ready with
          | true => exact .inr (.inr ⟨rfl, rfl⟩)
          | false => exact .inl rfl

def perform (s : ProbeState) : Action → ProbeState
  | .none => s
  | .clear => s.clear
  | .dhcp => s.clear
  | .candidate ip => s.setCandidate ip
  | .probe => s.request false
  | .claim _ => s
  | .announce => s.request true
  | .dhcpProbe xid => s.requestDhcpProbe xid
  | .stopDhcpProbe => s.stopDhcpProbe

@[simp] theorem perform_mac (s : ProbeState) (action : Action) :
    (s.perform action).mac = s.mac := by
  cases action <;> rfl

end ProbeState

/-! ## One device -/

/-- What happened, in order: an action of the policy with its time, a frame
handed to the driver, a received frame watched by the guard. -/
inductive Entry
  | action (now : ℕ) (action : Action)
  | sent (frame : List UInt8)
  | inspected (frame : List UInt8)
  deriving DecidableEq

structure Device where
  policy : AutoAddress
  probe : ProbeState
  clock : ℕ
  log : List Entry

inductive DeviceEvent
  /-- One pass of the policy task, `elapsed` ms after the last one. -/
  | policy (elapsed : ℕ) (link configured connected : Bool)
  /-- A driver call, which services the guard first. -/
  | service (linkUp ready : Bool)
  /-- A received frame is consumed. -/
  | receive (frame : List UInt8)
  deriving DecidableEq

namespace Device

def start (mac : Mac) : Device where
  policy := AutoAddress.new mac
  probe := ProbeState.new mac
  clock := 0
  log := []

def policyStep (d : Device) (elapsed : ℕ) (link configured connected : Bool) :
    Device :=
  let now := d.clock + elapsed
  let taken := d.probe.takeDhcpOffer
  let decided := d.policy.decideAction now taken.2 link configured connected
    taken.1.pending taken.1.conflicted
  { policy := decided.1
    probe := taken.1.perform decided.2
    clock := now
    log := d.log ++ [.action now decided.2] }

def serviceStep (d : Device) (linkUp ready : Bool) : Device :=
  let served := d.probe.service linkUp ready
  { d with
    probe := served.1
    log := d.log ++ (served.2.toList).map .sent }

def receiveStep (d : Device) (frame : List UInt8) : Device :=
  { d with
    probe := d.probe.inspect frame
    log := d.log ++ [.inspected frame] }

def step (d : Device) : DeviceEvent → Device
  | .policy elapsed link configured connected =>
      d.policyStep elapsed link configured connected
  | .service linkUp ready => d.serviceStep linkUp ready
  | .receive frame => d.receiveStep frame

/-- The shared state works for the address the policy probes or holds. -/
def Armed (d : Device) : Prop :=
  d.probe.candidate = d.policy.address ∧ d.policy.address ≠ Ipv4.zero

def Disarmed (d : Device) : Prop :=
  d.probe.candidate = Ipv4.zero ∧ d.probe.command = 0 ∧
    d.probe.dhcpPending = false

structure Coherent (d : Device) : Prop where
  mac_eq : d.probe.mac = d.policy.mac
  phase : match d.policy.phase with
    | .probeDelay _ sent =>
        d.Armed ∧ d.probe.dhcpPending = false ∧ d.probe.command = 0 ∧ sent < 3
    | .probeTx _ sent =>
        d.Armed ∧ d.probe.dhcpPending = false ∧
          (d.probe.command = 0 ∨ d.probe.command = 1) ∧ sent < 3
    | .claimDelay _ =>
        d.Armed ∧ d.probe.dhcpPending = false ∧ d.probe.command = 0
    | .online true _ _ => d.Armed
    | .online false _ announceAt => d.Disarmed ∧ announceAt = none
    | _ => d.Disarmed

theorem start_coherent (mac : Mac) : (start mac).Coherent :=
  ⟨rfl, rfl, rfl, rfl⟩

/-- What a pass of the policy task does, phases and addresses apart. -/
structure PolicyPass (d d' : Device) (elapsed : ℕ) (action : Action) :
    Prop where
  phase : PhaseMove d.policy.mac (d.clock + elapsed) d.probe.pending
    d.probe.conflict d.policy.phase action d'.policy.phase
  address : AddressMove d.policy d'.policy action
  probe_eq : d'.probe = ({ d.probe with dhcpOffer := false }).perform action
  clock_eq : d'.clock = d.clock + elapsed
  log_eq : d'.log = d.log ++ [.action (d.clock + elapsed) action]

theorem PolicyPass.armed {d d' : Device} {elapsed : ℕ} {action : Action}
    (hpass : d.PolicyPass d' elapsed action)
    (hkeep : ∀ ip, action ≠ .candidate ip)
    (hcandidate : d'.probe.candidate = d.probe.candidate)
    (harmed : d.Armed) : d'.Armed := by
  unfold Armed
  rw [hcandidate, hpass.address.address_eq hkeep]
  exact harmed

theorem PolicyPass.disarmed {d d' : Device} {elapsed : ℕ} {action : Action}
    (hpass : d.PolicyPass d' elapsed action)
    (haction : action = .clear ∨ action = .dhcp) : d'.Disarmed := by
  unfold Disarmed
  rw [hpass.probe_eq]
  rcases haction with rfl | rfl <;> exact ⟨rfl, rfl, rfl⟩

theorem policyStep_pass (d : Device) (elapsed : ℕ)
    (link configured connected : Bool) :
    ∃ action, d.PolicyPass (d.policyStep elapsed link configured connected)
      elapsed action :=
  ⟨_, d.policy.decideAction_move _ link configured connected _ _ _,
    d.policy.decideAction_address _ link configured connected _ _ _,
    rfl, rfl, rfl⟩

theorem serviceStep_cases (d : Device) (linkUp ready : Bool) :
    d.serviceStep linkUp ready = d ∨
      (d.probe.command ≠ 0 ∧ d.probe.candidate ≠ Ipv4.zero ∧
        d.serviceStep linkUp ready =
          { d with
            probe := { d.probe with command := 0 }
            log := d.log ++ [.sent (arpProbe d.probe.mac d.probe.candidate
              (d.probe.command == 2))] }) ∨
      (d.probe.dhcpPending = true ∧
        d.serviceStep linkUp ready =
          { d with
            probe := { d.probe with dhcpPending := false }
            log := d.log ++ [.sent (DhcpProbe.discover d.probe.mac
              d.probe.dhcpXid)] }) := by
  unfold serviceStep
  rcases d.probe.service_cases linkUp ready with
    hsame | ⟨hcommand, hcandidate, hsent⟩ | ⟨hpending, hsent⟩
  · left
    rw [hsame]
    simp
  · exact .inr (.inl ⟨hcommand, hcandidate, by rw [hsent]; rfl⟩)
  · exact .inr (.inr ⟨hpending, by rw [hsent]; rfl⟩)

theorem log_grows : History.Grows Device.log step := by
  intro d event
  cases event with
  | policy elapsed link configured connected => exact .inr ⟨_, rfl⟩
  | receive frame => exact .inr ⟨_, rfl⟩
  | service linkUp ready =>
      rcases d.serviceStep_cases linkUp ready with
        hsame | ⟨-, -, hsent⟩ | ⟨-, hsent⟩
      · exact .inl (congrArg Device.log hsame)
      · exact .inr ⟨_, congrArg Device.log hsent⟩
      · exact .inr ⟨_, congrArg Device.log hsent⟩

namespace Coherent

theorem afterReceive {d : Device} (hcoherent : d.Coherent)
    (frame : List UInt8) : (d.receiveStep frame).Coherent :=
  ⟨hcoherent.mac_eq, hcoherent.phase⟩

theorem afterService {d : Device} (hcoherent : d.Coherent)
    (linkUp ready : Bool) : (d.serviceStep linkUp ready).Coherent := by
  have hphase := hcoherent.phase
  rcases d.serviceStep_cases linkUp ready with
    hsame | ⟨hcommand, hcandidate, hsent⟩ | ⟨hpending, hsent⟩
  · rwa [hsame]
  · rw [hsent]
    refine ⟨hcoherent.mac_eq, ?_⟩
    cases hold : d.policy.phase with
    | probeDelay untilMs sent =>
        simp only [hold] at hphase
        exact absurd hphase.2.2.1 hcommand
    | probeTx untilMs sent =>
        simp only [hold] at hphase ⊢
        exact ⟨hphase.1, hphase.2.1, .inl trivial, hphase.2.2.2⟩
    | claimDelay untilMs =>
        simp only [hold] at hphase
        exact absurd hphase.2.2 hcommand
    | online fallback idleSince announceAt =>
        cases fallback with
        | true =>
            simp only [hold] at hphase ⊢
            exact hphase
        | false =>
            simp only [hold] at hphase
            exact absurd hphase.1.1 hcandidate
    | _ =>
        simp only [hold] at hphase
        exact absurd hphase.1 hcandidate
  · rw [hsent]
    refine ⟨hcoherent.mac_eq, ?_⟩
    cases hold : d.policy.phase with
    | probeDelay untilMs sent =>
        simp only [hold] at hphase
        simp [hphase.2.1] at hpending
    | probeTx untilMs sent =>
        simp only [hold] at hphase
        simp [hphase.2.1] at hpending
    | claimDelay untilMs =>
        simp only [hold] at hphase
        simp [hphase.2.1] at hpending
    | online fallback idleSince announceAt =>
        cases fallback with
        | true =>
            simp only [hold] at hphase ⊢
            exact hphase
        | false =>
            simp only [hold] at hphase
            simp [hphase.1.2.2] at hpending
    | _ =>
        simp only [hold] at hphase
        simp [hphase.2.2] at hpending

theorem afterPolicy {d : Device} (hcoherent : d.Coherent) (elapsed : ℕ)
    (link configured connected : Bool) :
    (d.policyStep elapsed link configured connected).Coherent := by
  obtain ⟨action, hpass⟩ := d.policyStep_pass elapsed link configured connected
  generalize d.policyStep elapsed link configured connected = d' at hpass ⊢
  have hmac : d'.probe.mac = d'.policy.mac := by
    rw [hpass.probe_eq, ProbeState.perform_mac, hpass.address.mac_eq]
    exact hcoherent.mac_eq
  refine ⟨hmac, ?_⟩
  have hphase := hcoherent.phase
  have hmove := hpass.phase
  have hprobe := hpass.probe_eq
  have harmed := fun hnew hcandidate => hpass.armed hnew hcandidate
  generalize d'.policy.phase = new at hmove ⊢
  generalize hold : d.policy.phase = old at hmove hphase
  cases hmove with
  | relinquish hnew =>
      have hdisarmed := hpass.disarmed (.inl rfl)
      rcases hnew with rfl | rfl <;> exact hdisarmed
  | keep hquiet =>
      have hkeep := harmed (by simp) (by rw [hprobe]; rfl)
      have hrest : d'.probe = { d.probe with dhcpOffer := false } := hprobe
      cases new with
      | probeDelay untilMs sent =>
          exact ⟨hkeep hphase.1, by rw [hrest]; exact hphase.2⟩
      | probeTx untilMs sent =>
          exact ⟨hkeep hphase.1, by rw [hrest]; exact hphase.2⟩
      | claimDelay untilMs =>
          exact ⟨hkeep hphase.1, by rw [hrest]; exact hphase.2⟩
      | online fallback idleSince announceAt =>
          cases fallback with
          | true => exact hkeep hphase
          | false =>
              simp only [Disarmed, hrest] at hphase ⊢
              exact hphase
      | _ =>
          simp only [Disarmed, hrest] at hphase ⊢
          exact hphase
  | discover _ => exact hpass.disarmed (.inr rfl)
  | leased =>
      refine ⟨?_, rfl⟩
      simp only [Disarmed, hprobe, ProbeState.perform] at hphase ⊢
      exact hphase
  | leaseless _ => exact hpass.disarmed (.inl rfl)
  | candidate _ =>
      obtain ⟨haddress, hchosen⟩ := hpass.address.candidate_eq _ rfl
      simp only [Disarmed] at hphase
      simp only [Armed, hprobe, ProbeState.perform, ProbeState.setCandidate]
      exact ⟨⟨haddress.symm, by
        rw [haddress, hchosen]
        exact linkLocalCandidate_ne_zero _ _⟩, hphase.2.2, hphase.2.1,
        by omega⟩
  | retry _ _ => exact hpass.disarmed (.inl rfl)
  | probe _ _ =>
      refine ⟨harmed (by simp) (by rw [hprobe]; rfl) hphase.1, ?_⟩
      rw [hprobe]
      exact ⟨hphase.2.1, .inr rfl, hphase.2.2.2⟩
  | probeSent hpending _ hsent =>
      refine ⟨harmed (by simp) (by rw [hprobe]; rfl) hphase.1, ?_⟩
      rw [hprobe]
      refine ⟨hphase.2.1, ?_, by omega⟩
      simpa [ProbeState.pending, ProbeState.perform] using hpending
  | lastProbeSent hpending _ _ =>
      refine ⟨harmed (by simp) (by rw [hprobe]; rfl) hphase.1, ?_⟩
      rw [hprobe]
      refine ⟨hphase.2.1, ?_⟩
      simpa [ProbeState.pending, ProbeState.perform] using hpending
  | claim _ _ => exact harmed (by simp) (by rw [hprobe]; rfl) hphase.1
  | fallback _ haction =>
      have hcandidate : d'.probe.candidate = d.probe.candidate := by
        rw [hprobe]
        rcases haction with rfl | rfl | ⟨xid, rfl⟩ | rfl <;> rfl
      refine harmed ?_ hcandidate hphase
      rcases haction with rfl | rfl | ⟨xid, rfl⟩ | rfl <;> simp
  | leaseHeld =>
      refine ⟨?_, rfl⟩
      simp only [Disarmed, hprobe, ProbeState.perform] at hphase ⊢
      exact hphase.1
  | leaseAnnounce _ => simp at hphase

end Coherent

end Device

end AutoIp
end PicoFi
