import PicoFi.ArpGuard

/-!
# Two devices never hold one link-local address

Two devices share a LAN in rounds: the frames sent in one round reach the
other device at the start of the next, then both policies take one step, in
either order.  Driver calls and frames from other hosts come at any time.
Of two devices that work on one address, one chose it later, and the other
stood on it when the later one's first probe went out.  `Late` follows that
probe to the flag of the other device, whose next policy step gives way.
-/

namespace PicoFi
namespace AutoIp

inductive Host
  | a
  | b
  deriving DecidableEq

def Host.other : Host → Host
  | .a => .b
  | .b => .a

@[simp] theorem Host.other_other (h : Host) : h.other.other = h := by
  cases h <;> rfl

theorem Host.other_ne (h : Host) : h.other ≠ h := by
  cases h <;> simp [Host.other]

theorem Host.eq_or_other (h k : Host) : k = h ∨ k = h.other := by
  cases h <;> cases k <;> simp [Host.other]

/-! ## The shared link -/

/-- `wire` holds what each host sent in this round, `stepped` whether its
policy has already run in it. -/
structure Lan where
  device : Host → Device
  wire : Host → List (List UInt8)
  stepped : Host → Bool

inductive LanEvent
  /-- The next round begins: the frames of the last one arrive. -/
  | deliver
  | policy (host : Host) (elapsed : ℕ) (link configured connected : Bool)
  | service (host : Host) (linkUp ready : Bool)
  /-- A frame of some other host arrives. -/
  | receive (host : Host) (frame : List UInt8)
  deriving DecidableEq

namespace Lan

def start (mac : Host → Mac) : Lan where
  device := fun host => Device.start (mac host)
  wire := fun _ => []
  stepped := fun _ => true

def deliver (lan : Lan) : Lan where
  device := fun host =>
    (lan.wire host.other).foldl Device.receiveStep (lan.device host)
  wire := fun _ => []
  stepped := fun _ => false

def step (lan : Lan) : LanEvent → Option Lan
  | .deliver =>
      if lan.stepped .a ∧ lan.stepped .b then some lan.deliver else none
  | .policy host elapsed link configured connected =>
      if lan.stepped host then none
      else
        some { lan with
          device := Function.update lan.device host
            ((lan.device host).policyStep elapsed link configured connected)
          stepped := Function.update lan.stepped host true }
  | .service host linkUp ready =>
      some { lan with
        device := Function.update lan.device host
          ((lan.device host).serviceStep linkUp ready)
        wire := Function.update lan.wire host
          (lan.wire host ++
            ((lan.device host).probe.service linkUp ready).2.toList) }
  | .receive host frame =>
      some { lan with
        device := Function.update lan.device host
          ((lan.device host).receiveStep frame) }

end Lan

def Holds (d : Device) (ip : Ipv4) : Prop :=
  d.policy.phase.Fallback ∧ d.policy.address = ip

def Contends (d : Device) (ip : Ipv4) : Prop :=
  (d.policy.phase.Probing ∨ d.policy.phase.Fallback) ∧ d.policy.address = ip

instance (phase : Phase) : Decidable phase.Fallback :=
  match phase with
  | .down | .startDhcp | .dhcp _ | .choose _ | .probeDelay _ _ | .probeTx _ _
  | .claimDelay _ | .online false _ _ => isFalse id
  | .online true _ _ => isTrue trivial

instance (d : Device) (ip : Ipv4) : Decidable (Holds d ip) :=
  inferInstanceAs (Decidable (_ ∧ _))

theorem Holds.contends {d : Device} {ip : Ipv4} (hholds : Holds d ip) :
    Contends d ip :=
  ⟨.inr hholds.1, hholds.2⟩

theorem Contends.armed {d : Device} {ip : Ipv4} (hcontends : Contends d ip)
    (hcoherent : d.Coherent) :
    d.probe.candidate = ip ∧ ip ≠ Ipv4.zero := by
  have hphase := hcoherent.phase
  obtain ⟨hwork, rfl⟩ := hcontends
  generalize d.policy.phase = phase at hphase hwork
  cases phase with
  | probeDelay untilMs sent => exact hphase.1
  | probeTx untilMs sent => exact hphase.1
  | claimDelay untilMs => exact hphase.1
  | online fallback idleSince announceAt =>
      cases fallback with
      | true => exact hphase
      | false => exact absurd hwork (by simp [Phase.Probing, Phase.Fallback])
  | _ => exact absurd hwork (by simp [Phase.Probing, Phase.Fallback])

/-! ## Moves that stay with an address -/

section Stay

variable {mac : Mac} {now : ℕ} {pending conflict : Bool}
variable {old new : Phase} {action : Action}

theorem PhaseMove.probeDelay_stays {untilMs sent : ℕ}
    (hmove : PhaseMove mac now pending conflict (.probeDelay untilMs sent)
      action new)
    (hwork : new.Probing ∨ new.Fallback) :
    (action = .none ∧ new = .probeDelay untilMs sent) ∨
      (action = .probe ∧ ∃ untilMs', new = .probeTx untilMs' sent) := by
  cases hmove with
  | relinquish hnew => exact absurd hwork (Phase.not_working hnew)
  | keep _ => exact .inl ⟨rfl, rfl⟩
  | discover hold => simp at hold
  | retry _ _ => exact absurd hwork (by simp [Phase.Probing, Phase.Fallback])
  | probe _ _ => exact .inr ⟨rfl, _, rfl⟩

theorem PhaseMove.probeTx_stays {untilMs sent : ℕ}
    (hmove : PhaseMove mac now pending conflict (.probeTx untilMs sent)
      action new)
    (hwork : new.Probing ∨ new.Fallback) :
    (action = .none ∧ new = .probeTx untilMs sent) ∨
      (pending = false ∧
        ((sent + 1 ≠ 3 ∧ ∃ untilMs', new = .probeDelay untilMs' (sent + 1)) ∨
          (sent + 1 = 3 ∧ ∃ untilMs', new = .claimDelay untilMs'))) := by
  cases hmove with
  | relinquish hnew => exact absurd hwork (Phase.not_working hnew)
  | keep _ => exact .inl ⟨rfl, rfl⟩
  | discover hold => simp at hold
  | retry _ _ => exact absurd hwork (by simp [Phase.Probing, Phase.Fallback])
  | probeSent hpending _ hmore => exact .inr ⟨hpending, .inl ⟨hmore, _, rfl⟩⟩
  | lastProbeSent hpending _ hthree =>
      exact .inr ⟨hpending, .inr ⟨hthree, _, rfl⟩⟩

/-- A raised flag makes a policy that works on an address give it up. -/
theorem PhaseMove.gives_way
    (hmove : PhaseMove mac now pending true old action new)
    (hold : old.Probing ∨ old.Fallback) : ¬(new.Probing ∨ new.Fallback) := by
  cases hmove with
  | relinquish hnew => exact Phase.not_working hnew
  | keep hquiet =>
      obtain ⟨hprobing, hfallback⟩ := hquiet rfl
      exact fun _ => hold.elim hprobing hfallback
  | candidate _ => simp [Phase.Probing, Phase.Fallback] at hold
  | fallback hconflict _ => cases hconflict
  | _ => simp_all [Phase.Probing, Phase.Fallback]

theorem PhaseMove.arrives
    (hmove : PhaseMove mac now pending conflict old action new)
    (hnew : new.Probing ∨ new.Fallback) :
    (old.Probing ∨ old.Fallback) ∧ (∀ ip, action ≠ .candidate ip) ∨
      (∃ ip, action = .candidate ip) ∧ ∃ untilMs, new = .probeDelay untilMs 0 := by
  cases hmove with
  | relinquish h =>
      rcases h with rfl | rfl <;> simp [Phase.Probing, Phase.Fallback] at hnew
  | candidate _ => exact .inr ⟨⟨_, rfl⟩, _, rfl⟩
  | fallback _ haction =>
      refine .inl ⟨.inr trivial, ?_⟩
      rcases haction with rfl | rfl | ⟨xid, rfl⟩ | rfl <;> simp
  | _ => simp_all [Phase.Probing, Phase.Fallback]

end Stay

theorem arpConflict_of_address {mac sender : Mac} {candidate address ip : Ipv4}
    (hcandidate : candidate = ip) (haddress : address = ip) :
    arpConflict (arpProbe sender address false) mac candidate =
      (sender != mac) := by
  rw [hcandidate, haddress, arpConflict_arpProbe]

/-! ## The probe of the later device -/

/-- `d` chose the address of `e` while `e` stood on it.  Its first probe is
not yet sent, or on the wire, or has raised the flag of `e`, whose policy has
not yet run in this round. -/
inductive Late (d e : Device) (wire : List (List UInt8))
    (dStepped eStepped : Bool) : Prop
  | waiting {untilMs : ℕ} (hphase : d.policy.phase = .probeDelay untilMs 0)
  | requested {untilMs : ℕ} (hphase : d.policy.phase = .probeTx untilMs 0)
      (hcommand : d.probe.command = 1)
  | onWire (hwire : arpProbe d.policy.mac d.policy.address false ∈ wire)
      (hphase : (∃ untilMs, d.policy.phase = .probeTx untilMs 0) ∨
        (∃ untilMs, d.policy.phase = .probeDelay untilMs 1) ∧ dStepped = true)
  | seen (hconflict : e.probe.conflict = true) (hstepped : eStepped = false)
      (hphase : (∃ untilMs, d.policy.phase = .probeTx untilMs 0) ∨
        (∃ untilMs, d.policy.phase = .probeDelay untilMs 1) ∨
        (∃ untilMs, d.policy.phase = .probeTx untilMs 1) ∧ dStepped = true)

namespace Late

variable {d d' e e' : Device} {wire wire' : List (List UInt8)}
variable {dStepped eStepped : Bool}

theorem not_holds (hlate : Late d e wire dStepped eStepped) :
    ¬d.policy.phase.Fallback := by
  cases hlate with
  | waiting hphase => simp [hphase, Phase.Fallback]
  | requested hphase _ => simp [hphase, Phase.Fallback]
  | onWire _ hphase =>
      rcases hphase with ⟨_, h⟩ | ⟨⟨_, h⟩, _⟩ <;> simp [h, Phase.Fallback]
  | seen _ _ hphase =>
      rcases hphase with ⟨_, h⟩ | ⟨_, h⟩ | ⟨⟨_, h⟩, _⟩ <;>
        simp [h, Phase.Fallback]

theorem mono (hlate : Late d e wire dStepped eStepped)
    (hpolicy : d'.policy = d.policy)
    (hcommand : d'.probe.command = d.probe.command)
    (hconflict : e.probe.conflict = true → e'.probe.conflict = true)
    (hwire : ∀ frame ∈ wire, frame ∈ wire') :
    Late d' e' wire' dStepped eStepped := by
  cases hlate with
  | waiting hphase => exact .waiting (hpolicy ▸ hphase)
  | requested hphase h => exact .requested (hpolicy ▸ hphase) (hcommand ▸ h)
  | onWire h hphase =>
      exact .onWire (hpolicy ▸ hwire _ h) (hpolicy ▸ hphase)
  | seen h hstepped hphase =>
      exact .seen (hconflict h) hstepped (hpolicy ▸ hphase)

theorem afterService (hlate : Late d e wire dStepped eStepped)
    (hcoherent : d.Coherent) (linkUp ready : Bool) :
    Late (d.serviceStep linkUp ready) e
      (wire ++ (d.probe.service linkUp ready).2.toList) dStepped eStepped := by
  have hwire : ∀ frame ∈ wire,
      frame ∈ wire ++ (d.probe.service linkUp ready).2.toList :=
    fun frame h => List.mem_append_left _ h
  have hquiet : (d.serviceStep linkUp ready).probe.command = d.probe.command →
      Late (d.serviceStep linkUp ready) e
        (wire ++ (d.probe.service linkUp ready).2.toList) dStepped eStepped :=
    fun hcommand => hlate.mono rfl hcommand id hwire
  rcases d.probe.service_cases linkUp ready with
    hsame | ⟨hcommand, hcandidate, hsent⟩ | ⟨hpending, hsent⟩
  · refine hquiet ?_
    simp only [Device.serviceStep, hsame]
  · have hphase := hcoherent.phase
    cases hlate with
    | waiting hold =>
        rw [hold] at hphase
        exact absurd hphase.2.2.1 hcommand
    | requested hold hone =>
        rw [hold] at hphase
        refine .onWire ?_ (.inl ⟨_, hold⟩)
        have hframe : arpProbe d.probe.mac d.probe.candidate
            (d.probe.command == 2) =
            arpProbe d.policy.mac d.policy.address false := by
          rw [hphase.1.1, hcoherent.mac_eq, hone]
          rfl
        rw [hsent, hframe]
        exact List.mem_append_right _ (List.mem_singleton.mpr rfl)
    | onWire h hold => exact .onWire (hwire _ h) hold
    | seen h hstepped hold => exact .seen h hstepped hold
  · refine hquiet ?_
    simp only [Device.serviceStep, hsent]

theorem afterPolicy (hlate : Late d e wire false eStepped)
    {ip : Ipv4} {elapsed : ℕ} {action : Action}
    (hpass : d.PolicyPass d' elapsed action) (hcontends : Contends d' ip)
    (haddress : d'.policy.address = d.policy.address) :
    Late d' e wire true eStepped := by
  have hmove := hpass.phase
  have hprobe := hpass.probe_eq
  have hwork := hcontends.1
  cases hlate with
  | waiting hold =>
      rw [hold] at hmove
      rcases hmove.probeDelay_stays hwork with ⟨-, hnew⟩ | ⟨rfl, _, hnew⟩
      · exact .waiting hnew
      · refine .requested hnew ?_
        rw [hprobe]
        rfl
  | requested hold hone =>
      have hpending : d.probe.pending = true := by
        simp [ProbeState.pending, hone]
      rw [hold] at hmove
      rcases hmove.probeTx_stays hwork with ⟨rfl, hnew⟩ | ⟨hsent, -⟩
      · refine .requested hnew ?_
        rw [hprobe]
        exact hone
      · simp [hpending] at hsent
  | onWire hframe hold =>
      rw [← hpass.address.mac_eq, ← haddress] at hframe
      rcases hold with ⟨untilMs, hold⟩ | ⟨-, hstepped⟩
      · rw [hold] at hmove
        rcases hmove.probeTx_stays hwork with
          ⟨-, hnew⟩ | ⟨-, ⟨-, _, hnew⟩ | ⟨hthree, -⟩⟩
        · exact .onWire hframe (.inl ⟨_, hnew⟩)
        · exact .onWire hframe (.inr ⟨⟨_, hnew⟩, rfl⟩)
        · simp at hthree
      · cases hstepped
  | seen hflag hstepped hold =>
      rcases hold with ⟨untilMs, hold⟩ | ⟨untilMs, hold⟩ | ⟨-, hdone⟩
      · rw [hold] at hmove
        rcases hmove.probeTx_stays hwork with
          ⟨-, hnew⟩ | ⟨-, ⟨-, _, hnew⟩ | ⟨hthree, -⟩⟩
        · exact .seen hflag hstepped (.inl ⟨_, hnew⟩)
        · exact .seen hflag hstepped (.inr (.inl ⟨_, hnew⟩))
        · simp at hthree
      · rw [hold] at hmove
        rcases hmove.probeDelay_stays hwork with ⟨-, hnew⟩ | ⟨-, _, hnew⟩
        · exact .seen hflag hstepped (.inr (.inl ⟨_, hnew⟩))
        · exact .seen hflag hstepped (.inr (.inr ⟨⟨_, hnew⟩, rfl⟩))
      · cases hdone

/-- The policy of the earlier device runs; had it seen the probe it would
have given the address up. -/
theorem afterOther (hlate : Late d e wire dStepped false) {ip : Ipv4}
    {elapsed : ℕ} {action : Action} (hpass : e.PolicyPass e' elapsed action)
    (hbefore : Contends e ip) (hafter : Contends e' ip) :
    Late d e' wire dStepped true := by
  cases hlate with
  | waiting hold => exact .waiting hold
  | requested hold hone => exact .requested hold hone
  | onWire hframe hold => exact .onWire hframe hold
  | seen hflag _ _ =>
      have hmove := hpass.phase
      rw [hflag] at hmove
      exact absurd hafter.1 (hmove.gives_way hbefore.1)

end Late

/-! ## Rounds -/

@[simp] theorem foldl_receiveStep_policy (frames : List (List UInt8))
    (d : Device) : (frames.foldl Device.receiveStep d).policy = d.policy := by
  induction frames generalizing d with
  | nil => rfl
  | cons frame frames ih => exact ih (d.receiveStep frame)

theorem foldl_receiveStep_command (frames : List (List UInt8)) (d : Device) :
    (frames.foldl Device.receiveStep d).probe.command = d.probe.command := by
  induction frames generalizing d with
  | nil => rfl
  | cons frame frames ih => exact ih (d.receiveStep frame)

theorem foldl_receiveStep_coherent (frames : List (List UInt8)) {d : Device}
    (hcoherent : d.Coherent) :
    (frames.foldl Device.receiveStep d).Coherent := by
  induction frames generalizing d with
  | nil => exact hcoherent
  | cons frame frames ih => exact ih (hcoherent.afterReceive frame)

theorem receiveStep_conflict {d : Device} (frame : List UInt8)
    (hflag : d.probe.conflict = true) :
    (d.receiveStep frame).probe.conflict = true := by
  simp [Device.receiveStep, ProbeState.inspect, hflag]

theorem foldl_receiveStep_conflict (frames : List (List UInt8)) {d : Device}
    (hflag : d.probe.conflict = true) :
    (frames.foldl Device.receiveStep d).probe.conflict = true := by
  induction frames generalizing d with
  | nil => exact hflag
  | cons frame frames ih => exact ih (receiveStep_conflict frame hflag)

theorem foldl_receiveStep_sees {frames : List (List UInt8)} {d : Device}
    {frame : List UInt8} (hframe : frame ∈ frames)
    (hcandidate : d.probe.candidate ≠ Ipv4.zero)
    (hconflict : arpConflict frame d.probe.mac d.probe.candidate = true) :
    (frames.foldl Device.receiveStep d).probe.conflict = true := by
  induction frames generalizing d with
  | nil => simp at hframe
  | cons first frames ih =>
      rcases List.mem_cons.mp hframe with rfl | hlater
      · refine foldl_receiveStep_conflict frames ?_
        simp [Device.receiveStep, ProbeState.inspect, hcandidate, hconflict]
      · exact ih hlater hcandidate hconflict

namespace Lan

def LateAt (lan : Lan) (host : Host) : Prop :=
  Late (lan.device host) (lan.device host.other) (lan.wire host)
    (lan.stepped host) (lan.stepped host.other)

structure Separated (mac : Host → Mac) (lan : Lan) : Prop where
  coherent : ∀ host, (lan.device host).Coherent
  mac_eq : ∀ host, (lan.device host).policy.mac = mac host
  contest : ∀ host ip, Contends (lan.device host) ip →
    Contends (lan.device host.other) ip →
      lan.LateAt host ∨ lan.LateAt host.other

theorem contest_of_host {lan : Lan} (host : Host)
    (hcontest : ∀ ip, Contends (lan.device host) ip →
      Contends (lan.device host.other) ip →
        lan.LateAt host ∨ lan.LateAt host.other) :
    ∀ host' ip, Contends (lan.device host') ip →
      Contends (lan.device host'.other) ip →
        lan.LateAt host' ∨ lan.LateAt host'.other := by
  intro host' ip hown hother
  rcases host.eq_or_other host' with rfl | rfl
  · exact hcontest ip hown hother
  · rw [Host.other_other] at hother ⊢
    exact (hcontest ip hother hown).symm

namespace Separated

variable {mac : Host → Mac} {lan : Lan}

theorem ofStart (mac : Host → Mac) : Separated mac (Lan.start mac) where
  coherent := fun host => Device.start_coherent (mac host)
  mac_eq := fun _ => rfl
  contest := by
    intro host ip hown _
    exact absurd hown.1 (by
      simp [Lan.start, Device.start, AutoAddress.new, Phase.Probing,
        Phase.Fallback])

theorem afterDeliver (hsep : Separated mac lan) (hne : mac .a ≠ mac .b)
    (hstepped : ∀ host, lan.stepped host = true) :
    Separated mac lan.deliver where
  coherent := fun host => foldl_receiveStep_coherent _ (hsep.coherent host)
  mac_eq := fun host => by
    simp only [Lan.deliver, foldl_receiveStep_policy]
    exact hsep.mac_eq host
  contest := by
    have hlate : ∀ host ip, Contends (lan.device host) ip →
        Contends (lan.device host.other) ip → lan.LateAt host →
          lan.deliver.LateAt host := by
      intro host ip hown hother hlate
      have hpolicy := foldl_receiveStep_policy (lan.wire host.other)
        (lan.device host)
      have hcommand := foldl_receiveStep_command (lan.wire host.other)
        (lan.device host)
      unfold LateAt at hlate ⊢
      simp only [Lan.deliver, Host.other_other]
      cases hlate with
      | waiting hold => exact .waiting (by rw [hpolicy]; exact hold)
      | requested hold hone =>
          exact .requested (by rw [hpolicy]; exact hold) (by rw [hcommand, hone])
      | onWire hframe hold =>
          obtain ⟨hcandidate, hip⟩ := hother.armed (hsep.coherent host.other)
          refine .seen (foldl_receiveStep_sees hframe (hcandidate ▸ hip) ?_)
            rfl ?_
          · rw [arpConflict_of_address hcandidate hown.2, bne_iff_ne,
              (hsep.coherent host.other).mac_eq, hsep.mac_eq, hsep.mac_eq]
            cases host with
            | a => exact hne
            | b => exact hne.symm
          · rw [hpolicy]
            rcases hold with hold | ⟨hold, -⟩
            · exact .inl hold
            · exact .inr (.inl hold)
      | seen _ hopen _ => simp [hstepped] at hopen
    intro host ip hown hother
    simp only [Lan.deliver, Contends, foldl_receiveStep_policy] at hown hother
    rcases hsep.contest host ip hown hother with h | h
    · exact .inl (hlate host ip hown hother h)
    · refine .inr (hlate host.other ip hother ?_ h)
      rwa [Host.other_other]

theorem ofUpdate (hsep : Separated mac lan) (host : Host) {d' : Device}
    (wire : List (List UInt8)) (stepped : Bool)
    (hcoherent : d'.Coherent)
    (hmac : d'.policy.mac = (lan.device host).policy.mac)
    (hcontest : ∀ ip, Contends d' ip → Contends (lan.device host.other) ip →
      Late d' (lan.device host.other) wire stepped (lan.stepped host.other) ∨
        Late (lan.device host.other) d' (lan.wire host.other)
          (lan.stepped host.other) stepped) :
    Separated mac
      { device := Function.update lan.device host d'
        wire := Function.update lan.wire host wire
        stepped := Function.update lan.stepped host stepped } where
  coherent := by
    intro host'
    rcases host.eq_or_other host' with rfl | rfl
    · simpa using hcoherent
    · simpa [host.other_ne] using hsep.coherent host.other
  mac_eq := by
    intro host'
    rcases host.eq_or_other host' with rfl | rfl
    · simpa [hmac] using hsep.mac_eq host'
    · simpa [host.other_ne] using hsep.mac_eq host.other
  contest := by
    refine contest_of_host host fun ip hown hother => ?_
    simp only [LateAt, Function.update_self, Function.update_of_ne host.other_ne,
      Host.other_other] at hown hother ⊢
    exact hcontest ip hown hother

theorem afterPolicy (hsep : Separated mac lan) (host : Host)
    (hopen : lan.stepped host = false) (elapsed : ℕ)
    (link configured connected : Bool) :
    Separated mac { lan with
      device := Function.update lan.device host
        ((lan.device host).policyStep elapsed link configured connected)
      stepped := Function.update lan.stepped host true } := by
  have hcoherent := (hsep.coherent host).afterPolicy elapsed link configured
    connected
  obtain ⟨action, hpass⟩ :=
    (lan.device host).policyStep_pass elapsed link configured connected
  generalize (lan.device host).policyStep elapsed link configured connected = d'
    at hpass hcoherent ⊢
  have hwire : Function.update lan.wire host (lan.wire host) = lan.wire :=
    Function.update_eq_self host lan.wire
  have hnext := hsep.ofUpdate host (lan.wire host) true
    hcoherent hpass.address.mac_eq ?_
  · rwa [hwire] at hnext
  intro ip hown hother
  rcases hpass.phase.arrives hown.1 with ⟨hwork, hkeep⟩ | ⟨-, untilMs, hnew⟩
  · have haddress := hpass.address.address_eq hkeep
    have hbefore : Contends (lan.device host) ip := by
      refine ⟨hwork, ?_⟩
      rw [← haddress]
      exact hown.2
    rcases hsep.contest host ip hbefore hother with hlate | hlate
    · unfold LateAt at hlate
      rw [hopen] at hlate
      exact .inl (hlate.afterPolicy hpass hown haddress)
    · unfold LateAt at hlate
      rw [Host.other_other, hopen] at hlate
      exact .inr (hlate.afterOther hpass hbefore hown)
  · exact .inl (.waiting hnew)

theorem afterService (hsep : Separated mac lan) (host : Host)
    (linkUp ready : Bool) :
    Separated mac { lan with
      device := Function.update lan.device host
        ((lan.device host).serviceStep linkUp ready)
      wire := Function.update lan.wire host
        (lan.wire host ++
          ((lan.device host).probe.service linkUp ready).2.toList) } := by
  have hstepped :
      Function.update lan.stepped host (lan.stepped host) = lan.stepped :=
    Function.update_eq_self host lan.stepped
  have hnext := hsep.ofUpdate host
    (lan.wire host ++ ((lan.device host).probe.service linkUp ready).2.toList)
    (lan.stepped host) ((hsep.coherent host).afterService linkUp ready) rfl ?_
  · rwa [hstepped] at hnext
  intro ip hown hother
  rcases hsep.contest host ip hown hother with hlate | hlate
  · exact .inl (hlate.afterService (hsep.coherent host) linkUp ready)
  · unfold LateAt at hlate
    rw [Host.other_other] at hlate
    refine .inr (hlate.mono rfl rfl (fun hflag => ?_) fun _ h => h)
    rcases (lan.device host).serviceStep_cases linkUp ready with
      h | ⟨-, -, h⟩ | ⟨-, h⟩ <;> rw [h] <;> exact hflag

theorem afterReceive (hsep : Separated mac lan) (host : Host)
    (frame : List UInt8) :
    Separated mac { lan with
      device := Function.update lan.device host
        ((lan.device host).receiveStep frame) } := by
  have hstepped :
      Function.update lan.stepped host (lan.stepped host) = lan.stepped :=
    Function.update_eq_self host lan.stepped
  have hwire : Function.update lan.wire host (lan.wire host) = lan.wire :=
    Function.update_eq_self host lan.wire
  have hnext := hsep.ofUpdate host (lan.wire host)
    (lan.stepped host) ((hsep.coherent host).afterReceive frame)
    rfl ?_
  · rwa [hstepped, hwire] at hnext
  intro ip hown hother
  rcases hsep.contest host ip hown hother with hlate | hlate
  · exact .inl (hlate.mono rfl rfl id fun _ h => h)
  · unfold LateAt at hlate
    rw [Host.other_other] at hlate
    exact .inr (hlate.mono rfl rfl (receiveStep_conflict frame) fun _ h => h)

theorem afterStep (hsep : Separated mac lan) (hne : mac .a ≠ mac .b)
    {event : LanEvent} {lan' : Lan} (hstep : lan.step event = some lan') :
    Separated mac lan' := by
  cases event with
  | deliver =>
      simp only [Lan.step] at hstep
      split at hstep
      next hboth =>
        cases hstep
        refine hsep.afterDeliver hne fun host => ?_
        cases host with
        | a => exact hboth.1
        | b => exact hboth.2
      next => cases hstep
  | policy host elapsed link configured connected =>
      simp only [Lan.step] at hstep
      split at hstep
      next => cases hstep
      next hopen =>
        cases hstep
        exact hsep.afterPolicy host (by simpa using hopen) elapsed link
          configured connected
  | service host linkUp ready =>
      cases hstep
      exact hsep.afterService host linkUp ready
  | receive host frame =>
      cases hstep
      exact hsep.afterReceive host frame

end Separated

end Lan

/-- In no run do both devices hold the same link-local address. -/
theorem never_both_hold (mac : Host → Mac) (hne : mac .a ≠ mac .b)
    (events : List LanEvent) (lan : Lan)
    (hreach : Runs.Reaches Lan.step (Lan.start mac) events lan) (ip : Ipv4) :
    ¬(Holds (lan.device .a) ip ∧ Holds (lan.device .b) ip) := by
  rintro ⟨ha, hb⟩
  have hsep : Lan.Separated mac lan :=
    hreach.invariant (fun _ _ _ hsep hstep => hsep.afterStep hne hstep)
      (Lan.Separated.ofStart mac)
  rcases hsep.contest .a ip ha.contends hb.contends with hlate | hlate
  · exact hlate.not_holds ha.1
  · exact hlate.not_holds hb.1

/-- Device `a` reaches its claim round by round while `b` has no link. -/
def soloRounds : List LanEvent :=
  [0, 10000, 20, 15].flatMap (fun elapsed =>
    [.deliver, .policy .a elapsed true false false,
      .policy .b elapsed false false false]) ++
  [20, 1004, 20, 1004, 20, 3004].flatMap (fun elapsed =>
    [.service .a true true, .deliver, .policy .a elapsed true false false,
      .policy .b elapsed false false false])

theorem never_both_hold_solo :
    ∃ lan, Runs.Reaches Lan.step
        (Lan.start fun
          | .a => ⟨2, 1, 2, 3, 4, 5⟩
          | .b => ⟨2, 6, 7, 8, 9, 10⟩) soloRounds lan ∧
      Holds (lan.device .a) (linkLocalCandidate ⟨2, 1, 2, 3, 4, 5⟩ 0) ∧
      ¬Holds (lan.device .b) (linkLocalCandidate ⟨2, 1, 2, 3, 4, 5⟩ 0) := by
  have hrun : ∃ lan, Runs.Reaches Lan.step
      (Lan.start fun
        | .a => ⟨2, 1, 2, 3, 4, 5⟩
        | .b => ⟨2, 6, 7, 8, 9, 10⟩) soloRounds lan ∧
      Holds (lan.device .a) (linkLocalCandidate ⟨2, 1, 2, 3, 4, 5⟩ 0) :=
    ⟨_, rfl, by decide⟩
  obtain ⟨lan, hreach, hholds⟩ := hrun
  exact ⟨lan, hreach, hholds, fun hother =>
    never_both_hold _ (by decide) soloRounds lan hreach _ ⟨hholds, hother⟩⟩

end AutoIp
end PicoFi
