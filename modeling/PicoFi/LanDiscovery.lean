import PicoFi.DiscoveryCodec
import PicoFi.StepRuns

/-!
# The discovery task

A disconnected client without a host asks for a peer once per second, collects
offers for 400 ms and publishes the one with the smallest identity.  A server
answers queries, at most four per second.  Both sides accept only messages of
the opposite party, so Pico-Fi devices among themselves find no peer.
-/

namespace PicoFi

open Buffer Discovery

/-! ## The published peer -/

/-- `PEER` and `EXPIRES` -/
structure PeerCell where
  peer : UInt64
  expires : ℕ
  deriving DecidableEq

namespace PeerCell

def cleared : PeerCell := ⟨0, 0⟩

def pack (ip : Ipv4) (port : UInt16) : UInt64 :=
  (ip.toBits.toUInt64 <<< 16) ||| port.toUInt64

/-- `peer`: the stored word is unpacked until it expires. -/
def published (cell : PeerCell) (now : ℕ) : Option (Ipv4 × UInt16) :=
  if cell.expires ≤ now then none
  else if cell.peer ≠ 0 then
    some (Ipv4.ofBits (cell.peer >>> 16).toUInt32, cell.peer.toUInt16)
  else none

@[simp] theorem published_cleared (now : ℕ) : cleared.published now = none :=
  if_pos (Nat.zero_le now)

theorem toNat_pack (ip : Ipv4) (port : UInt16) :
    (pack ip port).toNat = ip.toBits.toNat * 65536 + port.toNat := by
  have hip := ip.toBits.toNat_lt
  have hport := port.toNat_lt
  rw [pack, UInt64.toNat_or, UInt64.toNat_shiftLeft]
  simp only [UInt32.toNat_toUInt64, UInt16.toNat_toUInt64, UInt64.reduceToNat, Nat.reduceMod]
  rw [Nat.mod_eq_of_lt (by rw [Nat.shiftLeft_eq]; omega), ← Nat.shiftLeft_add_eq_or_of_lt hport,
    Nat.shiftLeft_eq]

theorem published_pack {ip : Ipv4} {port : UInt16} (hport : port ≠ 0) {now expires : ℕ}
    (hnow : now < expires) :
    (⟨pack ip port, expires⟩ : PeerCell).published now = some (ip, port) := by
  have hportLt := port.toNat_lt
  have hpack := toNat_pack ip port
  have hpos : 0 < port.toNat := by
    rw [Nat.pos_iff_ne_zero]
    exact fun h => hport (UInt16.toNat_inj.mp h)
  have hnonzero : pack ip port ≠ 0 := by
    intro hzero
    rw [hzero] at hpack
    simp at hpack
    omega
  have hip : (pack ip port >>> 16).toUInt32 = ip.toBits := by
    apply UInt32.toNat_inj.mp
    have hbits := ip.toBits.toNat_lt
    rw [UInt64.toNat_toUInt32, UInt64.toNat_shiftRight, hpack]
    simp [Nat.shiftRight_eq_div_pow]
    omega
  have hlow : (pack ip port).toUInt16 = port := by
    apply UInt16.toNat_inj.mp
    rw [UInt64.toNat_toUInt16, hpack]
    omega
  simp only [published, if_neg (Nat.not_le.mpr hnow), hip, hlow, Ipv4.ofBits_toBits]
  rw [if_pos hnonzero]

end PeerCell

/-! ## The task -/

structure Received where
  bytes : List UInt8
  ip : Ipv4
  port : UInt16
  /-- The clock when the datagram is looked at. -/
  time : ℕ
  /-- Whether an answer can be sent. -/
  sends : Bool
  deriving DecidableEq

/-- What one pass of the loop finds. -/
structure DiscoveryPass where
  now : ℕ
  configUp : Bool
  connected : Bool
  received : Option Received
  deriving DecidableEq

structure Datagram where
  bytes : List UInt8
  ip : Ipv4
  port : UInt16
  deriving DecidableEq

structure Offer where
  identity : Mac
  ip : Ipv4
  port : UInt16
  deriving DecidableEq

structure DiscoveryTask where
  nextQuery : ℕ
  query : Option Message
  settleUntil : ℕ
  best : Option Offer
  responseWindow : ℕ
  responses : ℕ
  cell : PeerCell
  deriving DecidableEq

namespace DiscoveryTask

def start : DiscoveryTask where
  nextQuery := 0
  query := none
  settleUntil := 0
  best := none
  responseWindow := 0
  responses := 0
  cell := .cleared

def isClient (config : BridgeConfig) : Bool :=
  match config.bridgeMode with
  | .tcpClient host _ => host = Ipv4.zero
  | .tcpServer _ => false

def broadcast : Ipv4 := ⟨255, 255, 255, 255⟩

def makeQuery (mac : Mac) (now : ℕ) : Message where
  kind := .query
  party := .pico
  port := 0
  nonce := max (UInt64.ofNat (leValue (mac.toList ++ [0x51, 0x9e])) ^^^ UInt64.ofNat now) 1
  identity := mac

def makeOffer (mac : Mac) (port : UInt16) (query : Message) : Message where
  kind := .offer
  party := .pico
  port := port
  nonce := query.nonce
  identity := mac

def renewBudget (s : DiscoveryTask) (now : ℕ) : DiscoveryTask :=
  if 1000 ≤ now - s.responseWindow then { s with responseWindow := now, responses := 0 } else s

def ask (s : DiscoveryTask) (mac : Mac) (now : ℕ) : DiscoveryTask :=
  { s with
    query := some (makeQuery mac now), best := none
    settleUntil := now + 400, nextQuery := now + 1000 }

def publish (s : DiscoveryTask) (now : ℕ) : DiscoveryTask :=
  match s.best with
  | some offer =>
      { s with
        cell := ⟨PeerCell.pack offer.ip offer.port, now + 2500⟩, best := none
        settleUntil := 0 }
  | none => { s with settleUntil := 0 }

def askWhenDue (config : BridgeConfig) (s : DiscoveryTask) (now : ℕ) :
    DiscoveryTask × List Datagram :=
  if s.nextQuery ≤ now then
    (s.ask config.macAddress now,
      [⟨(makeQuery config.macAddress now).encode, broadcast, Discovery.port⟩])
  else (s, [])

def settle (s : DiscoveryTask) (now : ℕ) : DiscoveryTask :=
  if s.settleUntil ≠ 0 ∧ s.settleUntil ≤ now then s.publish now else s

/-- `message.identity < *id` on byte arrays -/
def better (best : Option Offer) (offer : Offer) : Option Offer :=
  if best.all fun held => offer.identity.toList < held.identity.toList then some offer else best

def unusable (ip : Ipv4) : Bool := ip = Ipv4.zero ∨ 224 ≤ ip.o0

def answer (config : BridgeConfig) (s : DiscoveryTask) (connected : Bool) (r : Received)
    (message : Message) : DiscoveryTask × List Datagram :=
  match config.bridgeMode with
  | .tcpServer port =>
      if message.kind = .query ∧ message.party = .groundStation ∧
          message.identity ≠ config.macAddress ∧ s.responses < 4 then
        if r.sends then
          ({ s with responses := s.responses + 1 },
            [⟨(makeOffer config.macAddress port message).encode, r.ip, r.port⟩])
        else (s, [])
      else (s, [])
  | .tcpClient host _ =>
      if host = Ipv4.zero ∧ !connected ∧ s.settleUntil ≠ 0 ∧ r.time ≤ s.settleUntil ∧
          s.query.any (message.compatibleOffer ·) then
        ({ s with best := better s.best ⟨message.identity, r.ip, message.port⟩ }, [])
      else (s, [])

/-- A datagram longer than the buffer of 33 bytes is an error of the socket. -/
def receive (config : BridgeConfig) (s : DiscoveryTask) (connected : Bool) (r : Received) :
    DiscoveryTask × List Datagram :=
  if size + 1 < r.bytes.length then (s, [])
  else
    match Message.decode r.bytes with
    | none => (s, [])
    | some message => if unusable r.ip then (s, []) else answer config s connected r message

/-- The datagram that arrived before the timer, or none. -/
def listen (config : BridgeConfig) (s : DiscoveryTask) (connected : Bool) :
    Option Received → DiscoveryTask × List Datagram
  | none => (s, [])
  | some r => receive config s connected r

/-- One pass of the loop. -/
def pass (config : BridgeConfig) (s : DiscoveryTask) (p : DiscoveryPass) :
    DiscoveryTask × List Datagram :=
  let s := s.renewBudget p.now
  if !p.configUp then ({ s with cell := .cleared }, [])
  else
    let active := isClient config && !p.connected
    let asked := if active then askWhenDue config s p.now else (s, [])
    let s := if active then settle asked.1 p.now else asked.1
    let next := listen config s p.connected p.received
    (next.1, asked.2 ++ next.2)

end DiscoveryTask

/-- A pass of the task, or `clear_peer` by another one. -/
inductive DiscoveryEvent
  | pass (p : DiscoveryPass)
  | clearPeer
  deriving DecidableEq

def DiscoveryTask.step (config : BridgeConfig) (s : DiscoveryTask) :
    DiscoveryEvent → DiscoveryTask × List Datagram
  | .pass p => s.pass config p
  | .clearPeer => ({ s with cell := .cleared }, [])

/-! ## Offers inside the window of a query -/

def Received.offer (r : Received) (query : Message) : Option Offer :=
  (Message.decode r.bytes).bind fun message =>
    if DiscoveryTask.unusable r.ip = false ∧ message.compatibleOffer query then
      some ⟨message.identity, r.ip, message.port⟩
    else none

def DiscoveryPass.Active (p : DiscoveryPass) : Prop :=
  p.configUp = true ∧ p.connected = false

instance (p : DiscoveryPass) : Decidable p.Active := inferInstanceAs (Decidable (_ ∧ _))

namespace DiscoveryEvent

/-- The offer to the query that the event brings before the deadline. -/
def offer (query : Message) (deadline : ℕ) : DiscoveryEvent → Option Offer
  | .pass p =>
      if p.Active then
        p.received.bind fun r => if r.time ≤ deadline then r.offer query else none
      else none
  | .clearPeer => none

/-- The bytes the event delivers. -/
def heard : DiscoveryEvent → Option (List UInt8)
  | .pass p => p.received.map (·.bytes)
  | .clearPeer => none

/-- An active pass that starts before the deadline. -/
def Before (deadline : ℕ) : DiscoveryEvent → Prop
  | .pass p => p.Active → p.now < deadline
  | .clearPeer => True

end DiscoveryEvent

namespace DiscoveryTask

/-- The query is out and its offers are being collected. -/
structure Asking (query : Message) (deadline next : ℕ) (s : DiscoveryTask) : Prop where
  query_eq : s.query = some query
  settleUntil_eq : s.settleUntil = deadline
  nextQuery_eq : s.nextQuery = next

section Client

variable {config : BridgeConfig} {clientPort : UInt16} {query : Message} {deadline next : ℕ}
  {s : DiscoveryTask}

/-- What the window holds after the offers. -/
def collect (best : Option Offer) (offers : List Offer) : Option Offer :=
  offers.foldl better best

theorem answer_client (hmode : config.bridgeMode = .tcpClient Ipv4.zero clientPort)
    (hasking : Asking query deadline next s) (hpos : 0 < deadline) (r : Received)
    (message : Message) :
    answer config s false r message =
      if r.time ≤ deadline ∧ message.compatibleOffer query then
        ({ s with best := better s.best ⟨message.identity, r.ip, message.port⟩ }, [])
      else (s, []) := by
  unfold answer
  rw [hmode]
  apply if_congr _ rfl rfl
  rw [hasking.settleUntil_eq, hasking.query_eq]
  simp [hpos.ne']

theorem receive_client (hmode : config.bridgeMode = .tcpClient Ipv4.zero clientPort)
    (hasking : Asking query deadline next s) (hpos : 0 < deadline) (r : Received) :
    receive config s false r =
      ({ s with
          best := collect s.best (if r.time ≤ deadline then r.offer query else none).toList },
        []) := by
  unfold receive Received.offer
  cases hdecode : Message.decode r.bytes with
  | none => simp [collect]
  | some message =>
      have hlength : ¬size + 1 < r.bytes.length := by
        rw [Message.length_of_decode hdecode]
        exact Nat.not_lt.mpr (Nat.le_succ size)
      simp only [if_neg hlength, Option.bind_some, answer_client hmode hasking hpos]
      by_cases husable : unusable r.ip = true
      · simp [husable, collect]
      · by_cases htime : r.time ≤ deadline <;> by_cases hoffer : message.compatibleOffer query
        all_goals simp [husable, htime, hoffer, collect]

theorem listen_client (hmode : config.bridgeMode = .tcpClient Ipv4.zero clientPort)
    (hasking : Asking query deadline next s) (hpos : 0 < deadline)
    {p : DiscoveryPass} (hactive : p.Active) :
    listen config s p.connected p.received =
      ({ s with best := collect s.best ((DiscoveryEvent.pass p).offer query deadline).toList },
        []) := by
  simp only [DiscoveryEvent.offer, if_pos hactive]
  rw [hactive.2]
  cases p.received with
  | none => rfl
  | some r => exact receive_client hmode hasking hpos r

theorem listen_connected (hmode : config.bridgeMode = .tcpClient Ipv4.zero clientPort)
    (received : Option Received) : listen config s true received = (s, []) := by
  cases received with
  | none => rfl
  | some r =>
      simp only [listen, receive, answer, hmode]
      split
      next => rfl
      next =>
        split
        next => rfl
        next => simp

/-- Listening publishes nothing. -/
theorem cell_listen (connected : Bool) (received : Option Received) :
    (listen config s connected received).1.cell = s.cell := by
  cases received with
  | none => rfl
  | some r =>
      unfold listen receive
      dsimp only
      split
      next => rfl
      next =>
        split
        next => rfl
        next =>
          split
          next => rfl
          next =>
            unfold answer
            split
            next =>
              split
              next => split <;> rfl
              next => rfl
            next => split <;> rfl

theorem Asking.renewBudget (hasking : Asking query deadline next s) (now : ℕ) :
    Asking query deadline next (s.renewBudget now) := by
  unfold DiscoveryTask.renewBudget
  split
  next => exact ⟨hasking.query_eq, hasking.settleUntil_eq, hasking.nextQuery_eq⟩
  next => exact hasking

@[simp] theorem best_renewBudget (now : ℕ) : (s.renewBudget now).best = s.best := by
  unfold DiscoveryTask.renewBudget
  split <;> rfl

@[simp] theorem nextQuery_renewBudget (now : ℕ) :
    (s.renewBudget now).nextQuery = s.nextQuery := by
  unfold DiscoveryTask.renewBudget
  split <;> rfl

theorem Asking.withBest (hasking : Asking query deadline next s) (best : Option Offer) :
    Asking query deadline next { s with best := best } :=
  ⟨hasking.query_eq, hasking.settleUntil_eq, hasking.nextQuery_eq⟩

theorem asking_ask (mac : Mac) (now : ℕ) :
    Asking (makeQuery mac now) (now + 400) (now + 1000) (s.ask mac now) := ⟨rfl, rfl, rfl⟩

theorem pass_active (hmode : config.bridgeMode = .tcpClient Ipv4.zero clientPort)
    {p : DiscoveryPass} (hactive : p.Active) :
    s.pass config p =
      let asked := askWhenDue config (s.renewBudget p.now) p.now
      let next := listen config (settle asked.1 p.now) p.connected p.received
      (next.1, asked.2 ++ next.2) := by
  have hclient : (isClient config && !p.connected) = true := by
    simp [isClient, hmode, hactive.2]
  simp only [pass, hclient, hactive.1, Bool.not_true, Bool.false_eq_true, if_false, if_true]

/-- An inactive pass at most clears the published peer. -/
theorem pass_inactive (hmode : config.bridgeMode = .tcpClient Ipv4.zero clientPort)
    {p : DiscoveryPass} (hinactive : ¬p.Active) :
    ∃ cell, s.pass config p = ({ s.renewBudget p.now with cell := cell }, []) := by
  cases hup : p.configUp with
  | false => exact ⟨.cleared, by simp [pass, hup]⟩
  | true =>
      have hconnected : p.connected = true := by
        by_contra hno
        exact hinactive ⟨hup, by simpa using hno⟩
      refine ⟨(s.renewBudget p.now).cell, ?_⟩
      simp only [pass, hup, hconnected, Bool.not_true, Bool.and_false, Bool.false_eq_true,
        if_false, listen_connected hmode, List.append_nil]

theorem settle_early (hasking : Asking query deadline next s) {now : ℕ} (hnow : now < deadline) :
    settle s now = s := by
  rw [settle, hasking.settleUntil_eq, if_neg (by omega)]

/-- The pass that sends the query starts its window. -/
theorem pass_asks (hmode : config.bridgeMode = .tcpClient Ipv4.zero clientPort)
    {p : DiscoveryPass} (hactive : p.Active) (hdue : s.nextQuery ≤ p.now) :
    ∃ t, s.pass config p =
        (t, [⟨(makeQuery config.macAddress p.now).encode, broadcast, Discovery.port⟩]) ∧
      Asking (makeQuery config.macAddress p.now) (p.now + 400) (p.now + 1000) t ∧
      t.best = collect none ((DiscoveryEvent.pass p).offer
        (makeQuery config.macAddress p.now) (p.now + 400)).toList := by
  have hasking := @asking_ask (s.renewBudget p.now) config.macAddress p.now
  have hdue : (s.renewBudget p.now).nextQuery ≤ p.now := by rwa [nextQuery_renewBudget]
  rw [pass_active hmode hactive]
  simp only [askWhenDue, if_pos hdue, settle_early hasking (Nat.lt_add_of_pos_right (by decide)),
    listen_client hmode hasking (Nat.succ_pos _) hactive]
  exact ⟨_, rfl, hasking.withBest _, rfl⟩

/-- Inside the window a step only collects. -/
theorem step_asking (hmode : config.bridgeMode = .tcpClient Ipv4.zero clientPort)
    (hasking : Asking query deadline next s) (hpos : 0 < deadline) (hnext : deadline ≤ next)
    {e : DiscoveryEvent} (hbefore : e.Before deadline) :
    Asking query deadline next (s.step config e).1 ∧
      (s.step config e).1.best = collect s.best (e.offer query deadline).toList := by
  cases e with
  | clearPeer => exact ⟨⟨hasking.query_eq, hasking.settleUntil_eq, hasking.nextQuery_eq⟩, rfl⟩
  | pass p =>
      have hrenewed := hasking.renewBudget p.now
      by_cases hactive : p.Active
      · have hnow : p.now < deadline := hbefore hactive
        have hquiet : ¬(s.renewBudget p.now).nextQuery ≤ p.now := by
          rw [hrenewed.nextQuery_eq]
          omega
        simp only [step, pass_active hmode hactive, askWhenDue, if_neg hquiet,
          settle_early hrenewed hnow, listen_client hmode hrenewed hpos hactive,
          best_renewBudget]
        exact ⟨hrenewed.withBest _, trivial⟩
      · obtain ⟨cell, hpass⟩ := @pass_inactive config clientPort s hmode p hactive
        simp only [step, hpass, DiscoveryEvent.offer, if_neg hactive, best_renewBudget]
        exact ⟨⟨hrenewed.query_eq, hrenewed.settleUntil_eq, hrenewed.nextQuery_eq⟩, rfl⟩

def run (config : BridgeConfig) (s : DiscoveryTask) (events : List DiscoveryEvent) :
    DiscoveryTask :=
  events.foldl (fun s e => (s.step config e).1) s

/-- The window holds what the offers of the run leave. -/
theorem run_asking (hmode : config.bridgeMode = .tcpClient Ipv4.zero clientPort)
    (hasking : Asking query deadline next s) (hpos : 0 < deadline) (hnext : deadline ≤ next)
    {events : List DiscoveryEvent} (hbefore : ∀ e ∈ events, e.Before deadline) :
    Asking query deadline next (s.run config events) ∧
      (s.run config events).best =
        collect s.best (events.filterMap (DiscoveryEvent.offer query deadline)) := by
  induction events generalizing s with
  | nil => exact ⟨hasking, rfl⟩
  | cons e events ih =>
      obtain ⟨hstep, hbest⟩ :=
        step_asking hmode hasking hpos hnext (hbefore e List.mem_cons_self)
      obtain ⟨hrun, hoffers⟩ :=
        ih hstep fun e' he' => hbefore e' (List.mem_cons_of_mem e he')
      refine ⟨hrun, hoffers.trans ?_⟩
      rw [hbest, collect, collect, ← List.foldl_append]
      cases hoffer : e.offer query deadline with
      | none => simp [hoffer, collect]
      | some offer => simp [hoffer, collect]

/-- The first active pass after the window publishes what it holds. -/
theorem pass_settles (hmode : config.bridgeMode = .tcpClient Ipv4.zero clientPort)
    (hasking : Asking query deadline next s) (hpos : 0 < deadline)
    {p : DiscoveryPass} (hactive : p.Active) (hafter : deadline ≤ p.now) (hnext : p.now < next)
    {offer : Offer} (hbest : s.best = some offer) :
    (s.pass config p).1.cell = ⟨PeerCell.pack offer.ip offer.port, p.now + 2500⟩ := by
  have hrenewed := hasking.renewBudget p.now
  have hquiet : ¬(s.renewBudget p.now).nextQuery ≤ p.now := by
    rw [hrenewed.nextQuery_eq]
    omega
  have hsettles : (s.renewBudget p.now).settleUntil ≠ 0 ∧
      (s.renewBudget p.now).settleUntil ≤ p.now := by
    rw [hrenewed.settleUntil_eq]
    omega
  have hheld : (s.renewBudget p.now).best = some offer := by rw [best_renewBudget, hbest]
  rw [pass_active hmode hactive]
  simp only [askWhenDue, if_neg hquiet, cell_listen, settle, if_pos hsettles, publish, hheld]

/-- A client that stays disconnected publishes the only offer of its window. -/
theorem run_publishes (hmode : config.bridgeMode = .tcpClient Ipv4.zero clientPort)
    {first last : DiscoveryPass} {rest : List DiscoveryEvent} (hfirst : first.Active)
    (hdue : s.nextQuery ≤ first.now)
    (hbefore : ∀ e ∈ rest, e.Before (first.now + 400)) {offer : Offer} (hport : offer.port ≠ 0)
    (honly : (DiscoveryEvent.pass first :: rest).filterMap (DiscoveryEvent.offer
      (makeQuery config.macAddress first.now) (first.now + 400)) = [offer])
    (hlast : last.Active) (hafter : first.now + 400 ≤ last.now)
    (hnext : last.now < first.now + 1000) {now : ℕ} (hnow : now < last.now + 2500) :
    (s.run config (.pass first :: rest ++ [.pass last])).cell.published now =
      some (offer.ip, offer.port) := by
  obtain ⟨t, hpass, hasking, hbest⟩ := pass_asks hmode hfirst hdue
  obtain ⟨hwaiting, hoffers⟩ := run_asking hmode hasking (Nat.succ_pos _) (by omega) hbefore
  have hrun : s.run config (.pass first :: rest ++ [.pass last]) =
      ((t.run config rest).pass config last).1 := by
    simp [run, step, hpass, List.foldl_append]
  have hheld : (t.run config rest).best = some offer := by
    rw [hoffers, hbest, collect, collect, ← List.foldl_append]
    rw [List.filterMap_cons] at honly
    cases hown : (DiscoveryEvent.pass first).offer (makeQuery config.macAddress first.now)
        (first.now + 400) with
    | none =>
        rw [hown] at honly
        simp [honly, better]
    | some own =>
        rw [hown, List.cons.injEq] at honly
        simp [honly.1, honly.2, better]
  rw [hrun, pass_settles hmode hwaiting (Nat.succ_pos _) hlast hafter hnext hheld]
  exact PeerCell.published_pack hport hnow

end Client

/-! ## Answers of a server -/

section Server

variable {config : BridgeConfig} {port : UInt16} {s : DiscoveryTask}

theorem responses_renewBudget {now : ℕ}
    (hbudget : 1000 ≤ now - s.responseWindow ∨ s.responses < 4) :
    (s.renewBudget now).responses < 4 := by
  unfold DiscoveryTask.renewBudget
  split
  next => exact Nat.succ_pos 3
  next hold => exact hbudget.resolve_left hold

theorem pass_server (hmode : config.bridgeMode = .tcpServer port) {p : DiscoveryPass}
    (hup : p.configUp = true) :
    s.pass config p = listen config (s.renewBudget p.now) p.connected p.received := by
  simp [pass, isClient, hmode, hup]

/-- A query of the other party is answered within the budget, if the socket sends. -/
theorem pass_answers (hmode : config.bridgeMode = .tcpServer port) {p : DiscoveryPass}
    (hup : p.configUp = true) {r : Received} (hreceived : p.received = some r)
    {query : Message} (hdecode : Message.decode r.bytes = some query)
    (hkind : query.kind = .query) (hparty : query.party = .groundStation)
    (hidentity : query.identity ≠ config.macAddress) (husable : unusable r.ip = false)
    (hbudget : 1000 ≤ p.now - s.responseWindow ∨ s.responses < 4) :
    (s.pass config p).2 =
      if r.sends then [⟨(makeOffer config.macAddress port query).encode, r.ip, r.port⟩]
      else [] := by
  have hlength : ¬size + 1 < r.bytes.length := by
    rw [Message.length_of_decode hdecode]
    exact Nat.not_lt.mpr (Nat.le_succ size)
  have hguard : query.kind = .query ∧ query.party = .groundStation ∧
      query.identity ≠ config.macAddress ∧ (s.renewBudget p.now).responses < 4 :=
    ⟨hkind, hparty, hidentity, responses_renewBudget hbudget⟩
  rw [pass_server hmode hup, hreceived]
  simp only [listen, receive, if_neg hlength, hdecode, husable, answer, hmode]
  rw [if_neg Bool.false_ne_true, if_pos hguard]
  split <;> rfl

end Server

theorem wellFormed_makeOffer {mac : Mac} {port : UInt16} {query : Message} (hport : port ≠ 0)
    (hnonce : query.nonce ≠ 0) : (makeOffer mac port query).WellFormed where
  nonce_ne := hnonce
  port_iff := by simpa [makeOffer] using hport

theorem wellFormed_makeQuery (mac : Mac) (now : ℕ) : (makeQuery mac now).WellFormed where
  nonce_ne := by
    -- `max x 1` is one of its arguments, and above one when it is the first.
    dsimp only [makeQuery]
    unfold max instMaxUInt64 maxOfLe
    dsimp only
    split
    next => decide
    next hlarge =>
      intro hzero
      exact hlarge (hzero ▸ by decide)
  port_iff := by simp [makeQuery]

/-! ## Pico-Fi devices among themselves -/

/-- Nothing was collected or published. -/
structure Quiet (s : DiscoveryTask) : Prop where
  best_eq : s.best = none
  cell_eq : s.cell = .cleared
  query_party : ∀ query, s.query = some query → query.party = .pico

theorem quiet_start : start.Quiet := ⟨rfl, rfl, fun _ hquery => nomatch hquery⟩

/-- The datagram is not a message of another party. -/
def FromPico (bytes : List UInt8) : Prop :=
  ∀ message, Message.decode bytes = some message → message.party = .pico

section Quiet

variable {config : BridgeConfig} {s : DiscoveryTask}

theorem Quiet.renewBudget (hquiet : s.Quiet) (now : ℕ) : (s.renewBudget now).Quiet := by
  unfold DiscoveryTask.renewBudget
  split
  next => exact ⟨hquiet.best_eq, hquiet.cell_eq, hquiet.query_party⟩
  next => exact hquiet

theorem Quiet.askWhenDue (hquiet : s.Quiet) (now : ℕ) :
    (askWhenDue config s now).1.Quiet ∧
      ∀ d ∈ (askWhenDue config s now).2,
        d.bytes = (makeQuery config.macAddress now).encode := by
  unfold DiscoveryTask.askWhenDue
  split
  next =>
    refine ⟨⟨rfl, hquiet.cell_eq, ?_⟩, by simp⟩
    intro query hquery
    rw [← Option.some.inj hquery]
    rfl
  next => exact ⟨hquiet, by simp⟩

theorem Quiet.settle (hquiet : s.Quiet) (now : ℕ) : (settle s now).Quiet := by
  unfold DiscoveryTask.settle publish
  rw [hquiet.best_eq]
  split
  next => exact ⟨rfl, hquiet.cell_eq, hquiet.query_party⟩
  next => exact hquiet

/-- Both roles ask for the opposite party. -/
theorem Quiet.answer (hquiet : s.Quiet) (connected : Bool) (r : Received) {message : Message}
    (hparty : message.party = .pico) : answer config s connected r message = (s, []) := by
  unfold DiscoveryTask.answer
  split
  next => simp [hparty]
  next =>
    rw [if_neg]
    rintro ⟨-, -, -, -, hoffer⟩
    obtain ⟨query, hquery, hcompatible⟩ := (Option.any_eq_true _ _).mp hoffer
    obtain ⟨-, -, hopposite, -⟩ := Message.compatibleOffer_iff.mp hcompatible
    exact hopposite (hparty.trans (hquiet.query_party query hquery).symm)

theorem Quiet.listen (hquiet : s.Quiet) (connected : Bool) {received : Option Received}
    (hpico : ∀ r, received = some r → FromPico r.bytes) :
    listen config s connected received = (s, []) := by
  cases received with
  | none => rfl
  | some r =>
      unfold DiscoveryTask.listen receive
      dsimp only
      split
      next => rfl
      next =>
        cases hdecode : Message.decode r.bytes with
        | none => rfl
        | some message =>
            dsimp only
            rw [hquiet.answer connected r (hpico r rfl message hdecode), ite_self]

/-- A step that hears only Pico-Fi devices sends at most a query. -/
theorem Quiet.step (hquiet : s.Quiet) {e : DiscoveryEvent}
    (hpico : ∀ bytes, e.heard = some bytes → FromPico bytes) :
    (s.step config e).1.Quiet ∧
      ∀ d ∈ (s.step config e).2, ∃ now, d.bytes = (makeQuery config.macAddress now).encode := by
  cases e with
  | clearPeer => exact ⟨⟨hquiet.best_eq, rfl, hquiet.query_party⟩, by simp [DiscoveryTask.step]⟩
  | pass p =>
      have hrenewed := hquiet.renewBudget p.now
      have hheard : ∀ r, p.received = some r → FromPico r.bytes := by
        intro r hreceived
        exact hpico r.bytes (by rw [DiscoveryEvent.heard, hreceived]; rfl)
      unfold DiscoveryTask.step pass
      dsimp only
      split
      next => exact ⟨⟨hrenewed.best_eq, rfl, hrenewed.query_party⟩, by simp⟩
      next =>
        obtain ⟨hasked, hsent⟩ := @Quiet.askWhenDue config _ hrenewed p.now
        cases (isClient config && !p.connected) with
        | true =>
            have hsettled := hasked.settle p.now
            simp only [if_true, hsettled.listen p.connected hheard, List.append_nil]
            exact ⟨hsettled, fun d hd => ⟨p.now, hsent d hd⟩⟩
        | false =>
            simp only [Bool.false_eq_true, if_false,
              hrenewed.listen p.connected hheard, List.append_nil]
            exact ⟨hrenewed, by simp⟩

end Quiet

end DiscoveryTask

/-- Pico-Fi devices on one wire, each receiving what any of them sent. -/
structure PicoLan (ι : Type*) where
  tasks : ι → DiscoveryTask
  wire : List (List UInt8)

namespace PicoLan

open DiscoveryTask

variable {ι : Type*} [DecidableEq ι]

def start : PicoLan ι := ⟨fun _ => .start, []⟩

def step (configs : ι → BridgeConfig) (lan : PicoLan ι) (event : ι × DiscoveryEvent) :
    Option (PicoLan ι) :=
  if event.2.heard.all (· ∈ lan.wire) then
    let next := (lan.tasks event.1).step (configs event.1) event.2
    some ⟨Function.update lan.tasks event.1 next.1, lan.wire ++ next.2.map (·.bytes)⟩
  else none

structure AllQuiet (lan : PicoLan ι) : Prop where
  tasks : ∀ i, (lan.tasks i).Quiet
  wire : ∀ bytes ∈ lan.wire, ∃ mac now, bytes = (makeQuery mac now).encode

theorem decode_makeQuery (mac : Mac) (now : ℕ) :
    Message.decode (makeQuery mac now).encode = some (makeQuery mac now) :=
  Message.decode_encode (wellFormed_makeQuery mac now)

omit [DecidableEq ι] in
theorem AllQuiet.fromPico {lan : PicoLan ι} (hquiet : lan.AllQuiet) {bytes : List UInt8}
    (hwire : bytes ∈ lan.wire) : FromPico bytes := by
  obtain ⟨mac, now, rfl⟩ := hquiet.wire bytes hwire
  intro message hdecode
  rw [decode_makeQuery] at hdecode
  rw [← Option.some.inj hdecode]
  rfl

theorem allQuiet_step {configs : ι → BridgeConfig} {lan next : PicoLan ι}
    {event : ι × DiscoveryEvent} (hquiet : lan.AllQuiet)
    (hstep : lan.step configs event = some next) : next.AllQuiet := by
  obtain ⟨hheard, hnext⟩ := Option.ite_none_right_eq_some.mp hstep
  have hpico : ∀ bytes, event.2.heard = some bytes → FromPico bytes := by
    intro bytes hbytes
    rw [hbytes, Option.all_some, decide_eq_true_eq] at hheard
    exact hquiet.fromPico hheard
  obtain ⟨htask, hsent⟩ := @Quiet.step (configs event.1) _ (hquiet.tasks event.1) _ hpico
  rw [← Option.some.inj hnext]
  refine ⟨fun i => ?_, fun bytes hbytes => ?_⟩
  · dsimp only
    by_cases hi : i = event.1
    · rw [hi, Function.update_self]
      exact htask
    · rw [Function.update_of_ne hi]
      exact hquiet.tasks i
  · rcases List.mem_append.mp hbytes with hold | hnew
    · exact hquiet.wire bytes hold
    · obtain ⟨d, hd, rfl⟩ := List.mem_map.mp hnew
      obtain ⟨now, hquery⟩ := hsent d hd
      exact ⟨(configs event.1).macAddress, now, hquery⟩

/-- Pico-Fi devices among themselves send nothing but queries. -/
theorem allQuiet_run {configs : ι → BridgeConfig} {events : List (ι × DiscoveryEvent)}
    {lan : PicoLan ι} (hreach : Runs.Reaches (step configs) start events lan) :
    lan.AllQuiet :=
  hreach.invariant (fun _ _ _ hquiet hstep => allQuiet_step hquiet hstep)
    ⟨fun _ => quiet_start, by simp [start]⟩

/-- They never find a peer. -/
theorem silent_run {configs : ι → BridgeConfig} {events : List (ι × DiscoveryEvent)}
    {lan : PicoLan ι} (hreach : Runs.Reaches (step configs) start events lan) :
    (∀ bytes ∈ lan.wire,
        ∃ query, Message.decode bytes = some query ∧ query.kind = .query) ∧
      ∀ i now, (lan.tasks i).cell.published now = none := by
  have hquiet := allQuiet_run hreach
  constructor
  · intro bytes hbytes
    obtain ⟨mac, now, rfl⟩ := hquiet.wire bytes hbytes
    exact ⟨makeQuery mac now, decode_makeQuery mac now, rfl⟩
  · intro i now
    rw [(hquiet.tasks i).cell_eq, PeerCell.published_cleared]

end PicoLan

/-! ## The two parties -/

namespace DiscoveryTask

section Opposite

variable {config : BridgeConfig} {s : DiscoveryTask} {r : Received}

/-- The answer of a server is an offer that its asker accepts. -/
theorem server_offers {port : UInt16} (hmode : config.bridgeMode = .tcpServer port)
    (hport : port ≠ 0) {p : DiscoveryPass} (hup : p.configUp = true)
    (hreceived : p.received = some r) (husable : unusable r.ip = false) {query : Message}
    (hdecode : Message.decode r.bytes = some query) (hkind : query.kind = .query)
    (hparty : query.party = .groundStation) (hidentity : query.identity ≠ config.macAddress)
    (hbudget : 1000 ≤ p.now - s.responseWindow ∨ s.responses < 4) :
    ∃ offer, (s.pass config p).2 = (if r.sends then [⟨offer.encode, r.ip, r.port⟩] else []) ∧
      Message.decode offer.encode = some offer ∧ offer.port = port ∧
      offer.identity = config.macAddress ∧ offer.compatibleOffer query = true := by
  have hwell := @wellFormed_makeOffer config.macAddress port query hport
    (Message.WellFormed.of_decode hdecode).nonce_ne
  have hopposite : Party.pico ≠ query.party := by
    rw [hparty]
    decide
  exact ⟨makeOffer config.macAddress port query,
    pass_answers hmode hup hreceived hdecode hkind hparty hidentity husable hbudget,
    Message.decode_encode hwell, rfl, rfl,
    Message.compatibleOffer_iff.mpr ⟨rfl, hkind, hopposite, rfl, hidentity.symm, hport⟩⟩

/-- A ground station's offer to a query counts in its window. -/
theorem offer_pass {p : DiscoveryPass} (hactive : p.Active) (hreceived : p.received = some r)
    {deadline : ℕ} (htime : r.time ≤ deadline) (husable : unusable r.ip = false)
    {offer query : Message} (hdecode : Message.decode r.bytes = some offer)
    (hcompatible : offer.compatibleOffer query = true) :
    (DiscoveryEvent.pass p).offer query deadline =
      some ⟨offer.identity, r.ip, offer.port⟩ := by
  simp [DiscoveryEvent.offer, hactive, hreceived, htime, Received.offer, hdecode, husable,
    hcompatible]

theorem filterMap_only {α β : Type*} {f : α → Option β} {front back : List α} {a : α} {b : β}
    (hsome : f a = some b) (hnone : ∀ x ∈ front ++ back, f x = none) :
    (front ++ a :: back).filterMap f = [b] := by
  have hfront := List.filterMap_eq_nil_iff.mpr fun x hx =>
    hnone x (List.mem_append_left back hx)
  have hback := List.filterMap_eq_nil_iff.mpr fun x hx =>
    hnone x (List.mem_append_right front hx)
  rw [List.filterMap_append, List.filterMap_cons_some hsome, hfront, hback]
  rfl

end Opposite

/-- Pico-Fi devices find no peer among themselves.  A server answers the other
party, and a client takes the only offer the other party makes to its query. -/
theorem opposite_parties_discover :
    (∀ (ι : Type) [DecidableEq ι] (configs : ι → BridgeConfig)
        (events : List (ι × DiscoveryEvent)) (lan : PicoLan ι),
      Runs.Reaches (PicoLan.step configs) PicoLan.start events lan →
        (∀ bytes ∈ lan.wire,
            ∃ query, Message.decode bytes = some query ∧ query.kind = .query) ∧
          ∀ i now, (lan.tasks i).cell.published now = none) ∧
      (∀ (config : BridgeConfig) (port : UInt16) (s : DiscoveryTask) (p : DiscoveryPass)
          (r : Received) (query : Message),
        config.bridgeMode = .tcpServer port → port ≠ 0 → p.configUp = true →
        p.received = some r → unusable r.ip = false →
        Message.decode r.bytes = some query → query.kind = .query →
        query.party = .groundStation → query.identity ≠ config.macAddress →
        (1000 ≤ p.now - s.responseWindow ∨ s.responses < 4) →
          ∃ offer, (s.pass config p).2 =
              (if r.sends then [⟨offer.encode, r.ip, r.port⟩] else []) ∧
            Message.decode offer.encode = some offer ∧ offer.port = port ∧
            offer.identity = config.macAddress ∧ offer.compatibleOffer query = true) ∧
      ∀ (config : BridgeConfig) (clientPort : UInt16) (s : DiscoveryTask)
          (first p last : DiscoveryPass) (rest front back : List DiscoveryEvent)
          (r : Received) (offer : Message) (now : ℕ),
        let query := makeQuery config.macAddress first.now
        let deadline := first.now + 400
        config.bridgeMode = .tcpClient Ipv4.zero clientPort →
        first.Active → s.nextQuery ≤ first.now →
        DiscoveryEvent.pass first :: rest = front ++ .pass p :: back →
        p.Active → p.received = some r → r.time ≤ deadline → unusable r.ip = false →
        Message.decode r.bytes = some offer → offer.kind = .offer →
        offer.party = .groundStation → offer.nonce = query.nonce →
        offer.identity ≠ config.macAddress →
        (∀ e ∈ front ++ back, e.offer query deadline = none) →
        (∀ e ∈ rest, e.Before deadline) →
        last.Active → deadline ≤ last.now → last.now < first.now + 1000 →
        now < last.now + 2500 →
          (s.pass config first).2 = [⟨query.encode, broadcast, Discovery.port⟩] ∧
            Message.decode query.encode = some query ∧
            (s.run config (.pass first :: rest ++ [.pass last])).cell.published now =
              some (r.ip, offer.port) := by
  refine ⟨fun _ _ _ _ _ hreach => PicoLan.silent_run hreach, ?_, ?_⟩
  · intro config port s p r query hmode hport hup hreceived husable hdecode hkind hparty
      hidentity hbudget
    exact server_offers hmode hport hup hreceived husable hdecode hkind hparty hidentity hbudget
  · intro config clientPort s first p last rest front back r offer now query deadline hmode
      hfirst hdue hsplit hactive hreceived htime husable hdecode hkind hparty hnonce hidentity
      honly hbefore hlast hafter hnext hnow
    have hport : offer.port ≠ 0 := by
      rw [ne_eq, (Message.WellFormed.of_decode hdecode).port_iff, hkind]
      decide
    have hopposite : offer.party ≠ query.party := by
      rw [hparty]
      exact nofun
    have hcompatible : offer.compatibleOffer query = true :=
      Message.compatibleOffer_iff.mpr ⟨hkind, rfl, hopposite, hnonce, hidentity, hport⟩
    have hoffers : (DiscoveryEvent.pass first :: rest).filterMap
        (DiscoveryEvent.offer query deadline) = [⟨offer.identity, r.ip, offer.port⟩] := by
      rw [hsplit]
      exact filterMap_only
        (offer_pass hactive hreceived htime husable hdecode hcompatible) honly
    obtain ⟨t, hasks, -⟩ := pass_asks hmode hfirst hdue
    refine ⟨by rw [hasks], PicoLan.decode_makeQuery _ _, ?_⟩
    exact run_publishes hmode hfirst hdue hbefore hport hoffers hlast hafter hnext hnow

/-- A ground station's query to the server, and its offer to the client's first
query. -/
def stationQuery : Message := ⟨.query, .groundStation, 0, 7, ⟨2, 9, 8, 7, 6, 5⟩⟩

def pairedClient : BridgeConfig :=
  { BridgeConfig.spiServer with
    macAddress := ⟨2, 6, 7, 8, 9, 10⟩, bridgeMode := .tcpClient Ipv4.zero 0 }

def stationOffer : Message :=
  ⟨.offer, .groundStation, 9000, (makeQuery pairedClient.macAddress 0).nonce,
    ⟨2, 9, 8, 7, 6, 5⟩⟩

def heardFromStation (bytes : List UInt8) : Received :=
  ⟨bytes, ⟨192, 168, 1, 20⟩, 49361, 120, true⟩

theorem station_discovered :
    (∃ offer, (start.pass .spiServer
        ⟨100, true, false, some (heardFromStation stationQuery.encode)⟩).2 =
          [⟨offer.encode, ⟨192, 168, 1, 20⟩, 49361⟩] ∧
        Message.decode offer.encode = some offer ∧ offer.port = 5000 ∧
        offer.identity = BridgeConfig.spiServer.macAddress ∧
        offer.compatibleOffer stationQuery = true) ∧
      (start.run pairedClient
        [.pass ⟨0, true, false, some (heardFromStation stationOffer.encode)⟩,
          .pass ⟨410, true, false, none⟩]).cell.published 500 =
        some (⟨192, 168, 1, 20⟩, 9000) :=
  ⟨opposite_parties_discover.2.1 .spiServer 5000 start
      ⟨100, true, false, some (heardFromStation stationQuery.encode)⟩
      (heardFromStation stationQuery.encode) stationQuery rfl (by decide) rfl rfl (by decide)
      (Message.decode_encode ⟨by decide, by decide⟩) rfl rfl (by decide) (by decide),
    (opposite_parties_discover.2.2 pairedClient 0 start
      ⟨0, true, false, some (heardFromStation stationOffer.encode)⟩
      ⟨0, true, false, some (heardFromStation stationOffer.encode)⟩
      ⟨410, true, false, none⟩ [] [] [] (heardFromStation stationOffer.encode) stationOffer 500
      rfl ⟨rfl, rfl⟩ (by decide) rfl ⟨rfl, rfl⟩ rfl (by decide) (by decide)
      (Message.decode_encode ⟨by decide, by decide⟩) rfl rfl rfl (by decide) (by simp) (by simp)
      ⟨rfl, rfl⟩ (by decide) (by decide) (by decide)).2.2⟩

/-- A server does not answer the query of a Pico-Fi client. -/
theorem pico_query_unanswered :
    ¬∀ (server client : BridgeConfig) (port clientPort : UInt16) (s t : DiscoveryTask)
        (p asking : DiscoveryPass) (r : Received) (query : Datagram),
      server.discovery = true → client.discovery = true →
      server.macAddress ≠ client.macAddress → server.bridgeMode = .tcpServer port →
      port ≠ 0 → client.bridgeMode = .tcpClient Ipv4.zero clientPort → asking.Active →
      query ∈ (t.pass client asking).2 → p.configUp = true → p.received = some r →
      r.bytes = query.bytes → r.sends = true → unusable r.ip = false →
      (1000 ≤ p.now - s.responseWindow ∨ s.responses < 4) →
        ∃ offer ∈ (s.pass server p).2, ∃ message, Message.decode offer.bytes = some message ∧
          message.kind = .offer := by
  intro hall
  let query : Datagram := ⟨(makeQuery pairedClient.macAddress 0).encode, broadcast, Discovery.port⟩
  let asking : DiscoveryPass := ⟨0, true, false, none⟩
  have hsent : query ∈ (start.pass pairedClient asking).2 := by
    obtain ⟨t, hasks, -⟩ := @pass_asks pairedClient 0 start rfl asking ⟨rfl, rfl⟩ (Nat.zero_le 0)
    rw [hasks]
    exact List.mem_singleton_self _
  have hpico : ∀ r, some (heardFromStation query.bytes) = some r → FromPico r.bytes := by
    intro r hr message hdecode
    rw [← Option.some.inj hr] at hdecode
    rw [heardFromStation, PicoLan.decode_makeQuery] at hdecode
    rw [← Option.some.inj hdecode]
    rfl
  obtain ⟨offer, hoffer, -⟩ := hall .spiServer pairedClient 5000 0 start start
    ⟨100, true, false, some (heardFromStation query.bytes)⟩ asking
    (heardFromStation query.bytes) query rfl rfl (by decide) rfl (by decide) rfl ⟨rfl, rfl⟩ hsent
    rfl rfl rfl rfl (by decide) (by decide)
  rw [pass_server rfl rfl, (quiet_start.renewBudget 100).listen false hpico] at hoffer
  exact absurd hoffer List.not_mem_nil

end DiscoveryTask

end PicoFi
