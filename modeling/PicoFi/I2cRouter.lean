import PicoFi.I2cExchange
import PicoFi.PacketArmor

/-!
# The router on the I2C host

`I2cRouterAdapter` writes every payload in slots and reads the message that the
slave has staged.  The adapter, the slave task and its two queues run as one
system, in which the session behind the queues acts at any time.  A response
travels in a link frame, which the adapter hands on as it is.  A call that runs
out of time between two slots leaves the slave in the middle of a message.  A
transfer that fails in the host ends the call with an `OSError`, whatever part
of it the slave has had; what fails on the slave's side is an event of its own.
-/

namespace PicoFi
namespace I2c

open Buffer LinkFrame Mailbox
open I2cHost.Python (RxAssembly Turn ValueError PacketResult Fits turn encodeSlots)

/-! ## Lists with losses -/

section Thinned

variable {α : Type} {lossless : Prop} {kept all lost back : List α}

/-- What is kept of a list, which is all of it where nothing is lost. -/
def Thinned (lossless : Prop) (kept all : List α) : Prop :=
  List.Sublist kept all ∧ (lossless → kept = all)

theorem Thinned.append (h : Thinned lossless kept all) (back : List α) :
    Thinned lossless (kept ++ back) (all ++ back) :=
  ⟨h.1.append_right back, fun hp => by rw [h.2 hp]⟩

theorem Thinned.lose (h : Thinned lossless (kept ++ (lost ++ back)) all)
    (hlost : lossless → lost = []) : Thinned lossless (kept ++ back) all := by
  constructor
  · exact ((List.sublist_append_right lost back).append_left kept).trans h.1
  · intro hp
    rw [← h.2 hp, hlost hp, List.nil_append]

theorem Thinned.miss (h : Thinned lossless kept all) (hlost : lossless → lost = []) :
    Thinned lossless kept (all ++ lost) := by
  constructor
  · exact h.1.trans (List.sublist_append_left all lost)
  · intro hp
    rw [h.2 hp, hlost hp, List.append_nil]

end Thinned

/-! ## The adapter -/

/-- `payload_limit`, which the caller checks. -/
abbrev payloadLimit : ℕ := 240

/-- `timeout_s` of `send_payload` in microseconds. -/
abbrev sendTimeout : ℕ := 50000

inductive RouterPhase
  | idle
  /-- In `write_packet`, with the slots it has still to write. -/
  | writing (slots : List (List UInt8))
  /-- In `read_packet`, called by `send_payload` or by `recv_payload`. -/
  | reading (sending : Bool) (deadline : ℕ) (assembly : Option RxAssembly)
  /-- `read_packet` has raised an error, which nothing catches. -/
  | raised (e : ValueError)
  /-- A transfer has raised an `OSError`, which nothing catches either, with these
  slots not written. -/
  | failed (slots : List (List UInt8))

def RouterPhase.assembly : RouterPhase → Option RxAssembly
  | .reading _ _ assembly => assembly
  | _ => none

/-- No call has ended with an error. -/
def RouterPhase.Running : RouterPhase → Prop
  | .raised _ | .failed _ => False
  | _ => True

theorem RouterPhase.running_of_assembly {phase : RouterPhase} {a : RxAssembly}
    (hassembly : phase.assembly = some a) : phase.Running := by
  cases phase with
  | reading sending deadline assembly => trivial
  | idle => cases hassembly
  | writing slots => cases hassembly
  | raised e => cases hassembly
  | failed slots => cases hassembly

def RouterPhase.unwritten : RouterPhase → List (List UInt8)
  | .writing slots | .failed slots => slots
  | _ => []

/-- What has been written of the payloads sent: the last one may be half written. -/
def RouterPhase.written (sent : List (List UInt8)) (phase : RouterPhase) :
    List (List UInt8) :=
  if phase.unwritten = [] then sent else sent.dropLast

/-- The adapter and the slave.  The last five lists are what `recv_payload` has
returned, what `send_payload` was given, the responses the queue has accepted
from the session, the packets the slave has forwarded and those the session has
taken. -/
structure RouterRun where
  task : I2cTask
  transferId : UInt16
  phase : RouterPhase
  pending : List (List UInt8)
  returned : List (List UInt8)
  sent : List (List UInt8)
  accepted : List I2cPacket
  forwarded : List I2cPacket
  taken : List I2cPacket

inductive SessionAct
  | queueResponse (packet : I2cPacket)
  | takeRequest

inductive RouterEvent
  | sendPayload (payload : List UInt8)
  | writeSlot (now : ℕ) (runtime : CommandRuntime)
  /-- `send_payload` calls `read_packet` behind its last slot. -/
  | readBack (now : ℕ)
  | recvPayload (now timeout : ℕ)
  | poll (now : ℕ) (io : ReadIo)
  /-- The transfer of a slot fails in the host, with so many of its bytes at the
  slave, which may also have no part in it. -/
  | writeError (count : Option ℕ) (now : ℕ) (runtime : CommandRuntime)
  /-- The transfer of a poll fails in the host; the slave may have served it. -/
  | pollError (served : Bool) (now : ℕ) (io : ReadIo)
  | session (act : SessionAct)
  /-- The slave fails to listen. -/
  | busError

/-- `_next_transfer_id` leaves the id of the next call. -/
def nextTransferId (transferId : UInt16) : UInt16 :=
  if transferId + 1 = 0 then 1 else transferId + 1

def SlotAction.forwarded : SlotAction → List I2cPacket
  | .forward packet => [packet]
  | _ => []

/-- The bytes a reply puts on the bus. -/
def BusReply.bytes : BusReply → List UInt8
  | .slot bytes => bytes
  | .packet header body => header ++ (body.map Prod.fst).getD []

namespace RouterRun

def start : RouterRun := ⟨I2cTask.start, 1, .idle, [], [], [], [], [], []⟩

/-- `send_payload` keeps a data payload for later, `recv_payload` returns it. -/
def afterRead (r : RouterRun) (sending : Bool) : PacketResult → RouterRun
  | .packet kind payload _ =>
      if kind = kindData ∧ payload ≠ [] then
        if sending then { r with phase := .idle, pending := r.pending ++ [payload] }
        else { r with phase := .idle, returned := r.returned ++ [payload] }
      else { r with phase := .idle }
  | .raised e => { r with phase := .raised e }
  | .timedOut => { r with phase := .idle }
  | .reading => r

def afterTurn (r : RouterRun) (sending : Bool) (deadline : ℕ) : Turn → RouterRun
  | .again assembly => { r with phase := .reading sending deadline assembly }
  | .done result => r.afterRead sending (result [])

def act (r : RouterRun) : SessionAct → RouterRun
  | .queueResponse packet =>
      let (rxResp, accepted) := r.task.rxResp.tryPushRef packet
      { r with
        task := { r.task with rxResp := rxResp }
        accepted := r.accepted ++ if accepted then [packet] else [] }
  | .takeRequest =>
      let (ingress, taken) := r.task.ingress.tryPop
      { r with
        task := { r.task with ingress := ingress }
        taken := r.taken ++ taken.toList }

def step (config : BridgeConfig) (r : RouterRun) : RouterEvent → Option RouterRun
  | .sendPayload payload =>
      match r.phase with
      | .idle =>
          if payload.length ≤ payloadLimit then
            some { r with
              transferId := nextTransferId r.transferId
              phase := .writing (encodeSlots kindData r.transferId payload)
              sent := r.sent ++ [payload] }
          else none
      | _ => none
  | .writeSlot now runtime =>
      match r.phase with
      | .writing (slot :: slots) =>
          (r.task.writeAction config ⟨now, runtime, slot⟩).map fun (task, action) =>
            { r with
              task := task.perform action
              phase := .writing slots
              forwarded := r.forwarded ++ action.forwarded }
      | _ => none
  | .readBack now =>
      match r.phase with
      | .writing [] => some { r with phase := .reading true (now + sendTimeout) none }
      | _ => none
  | .recvPayload now timeout =>
      match r.phase, r.pending with
      | .idle, payload :: rest =>
          some { r with pending := rest, returned := r.returned ++ [payload] }
      | .idle, [] => some { r with phase := .reading false (now + timeout) none }
      | _, _ => none
  | .poll now io =>
      match r.phase with
      | .reading sending deadline assembly =>
          if now < deadline then
            (r.task.readReply io).map fun (task, reply) =>
              { r with task := task }.afterTurn sending deadline
                (turn deadline assembly ⟨now, reply.bytes⟩)
          else some (r.afterTurn sending deadline (turn deadline assembly ⟨now, []⟩))
      | _ => none
  | .writeError count now runtime =>
      match r.phase, count with
      | .writing (slot :: slots), some count =>
          (r.task.writeAction config ⟨now, runtime, slot.take count⟩).map
            fun (task, action) =>
              { r with
                task := task.perform action
                phase := .failed (if count < slot.length then slot :: slots else slots)
                forwarded := r.forwarded ++ action.forwarded }
      | .writing (slot :: slots), none => some { r with phase := .failed (slot :: slots) }
      | _, _ => none
  | .pollError served now io =>
      match r.phase with
      | .reading _ deadline _ =>
          if now < deadline then
            if served then
              (r.task.readReply io).map fun (task, _) =>
                { r with task := task, phase := .failed [] }
            else some { r with phase := .failed [] }
          else none
      | _ => none
  | .session act => some (r.act act)
  | .busError => (r.task.step config .busError).map fun (task, _) => { r with task := task }

/-- The payloads whose slots have all been written. -/
def written (r : RouterRun) : List (List UInt8) := r.phase.written r.sent

end RouterRun

/-! ## Responses and requests -/

/-- What is due to the host for a queued response: the payload in its link frame. -/
def deliverable (packet : I2cPacket) : Option (List UInt8) :=
  if packet.kind = kindData then
    some (framed (reqDataMagic, respDataMagic) (packet.payload.asSlice.take framedMax))
  else none

/-- What is due for the message in hand. -/
def underway : Current → List (List UInt8)
  | some (m, _) => if m.kind = kindData then [m.payload] else []
  | none => []

def due (current : Current) (waiting : List I2cPacket) : List (List UInt8) :=
  underway current ++ waiting.filterMap deliverable

/-- A message that both ends can tell from an idle slot. -/
def Known (m : Message) : Prop := m.kind ≠ kindIdle ∧ (m.kind = kindData → m.payload ≠ [])

section Messages

variable {m : Message} {current : Current} {waiting : List I2cPacket}

theorem OwnMessage.known (hm : OwnMessage m) : Known m := by
  rcases hm with h | h <;> rw [Known, h]
  · exact ⟨by decide, fun hdata => absurd hdata (by decide)⟩
  · exact ⟨by decide, fun hdata => absurd hdata (by decide)⟩

theorem underway_own (hm : OwnMessage m) (i : ℕ) : underway (some (m, i)) = [] := by
  rcases hm with h | h <;> rw [underway, h] <;> rfl

theorem bridgeMessage_data (transferId : UInt16) {packet : I2cPacket}
    (hdata : packet.kind = kindData) :
    bridgeMessage transferId packet = ⟨kindData, transferId,
      framed (reqDataMagic, respDataMagic) (packet.payload.asSlice.take framedMax)⟩ := by
  have hpair : headerForMagic respDataMagic = some (reqDataMagic, respDataMagic) := by decide
  rw [bridgeMessage, TxPacketState.stageBridgePacket, if_pos hdata,
    TxPacketState.message_stageFramed _ hpair, hdata]

theorem bridgeMessage_own (transferId : UInt16) {packet : I2cPacket}
    (hother : packet.kind ≠ kindData) : OwnMessage (bridgeMessage transferId packet) := by
  unfold bridgeMessage TxPacketState.stageBridgePacket
  rw [if_neg hother]
  split
  next hcommand =>
    rw [hcommand]
    exact kind_stageFramed _ _ _ _
  next =>
    split
    next herror =>
      rw [herror]
      unfold TxPacketState.stageFramed
      split <;> exact .inr rfl
    next => exact .inr rfl

theorem known_bridgeMessage (transferId : UInt16) (packet : I2cPacket) :
    Known (bridgeMessage transferId packet) := by
  by_cases hdata : packet.kind = kindData
  · rw [bridgeMessage_data transferId hdata]
    exact ⟨show kindData ≠ kindIdle by decide, fun _ => List.cons_ne_nil _ _⟩
  · exact (bridgeMessage_own transferId hdata).known

theorem underway_bridgeMessage (transferId : UInt16) (packet : I2cPacket) (i : ℕ) :
    underway (some (bridgeMessage transferId packet, i)) = (deliverable packet).toList := by
  by_cases hdata : packet.kind = kindData
  · rw [bridgeMessage_data transferId hdata, deliverable, if_pos hdata]
    rfl
  · rw [underway_own (bridgeMessage_own transferId hdata), deliverable, if_neg hdata]
    rfl

theorem due_found (transferId : UInt16) :
    due (found transferId current waiting).1 (found transferId current waiting).2 =
      due current waiting := by
  rcases current with _ | entry
  · rcases waiting with _ | ⟨packet, waiting⟩
    · rfl
    · rw [found, due, underway_bridgeMessage, due, List.filterMap_cons]
      cases deliverable packet <;> rfl
  · rfl

end Messages

def request (transferId : UInt16) (payload : List UInt8) : Message :=
  ⟨kindData, transferId, payload⟩

def SlotAction.packet : SlotAction → Option I2cPacket
  | .forward packet => some packet
  | _ => none

/-- What the slave forwards of a payload. -/
def bridged (config : BridgeConfig) (payload : List UInt8) : Option I2cPacket :=
  (processCompletePacket config CommandRuntime.idle kindData 1 payload).packet

theorem packet_forwardData (transferId transferId' : UInt16) (payload : List UInt8) :
    (forwardData transferId payload).packet = (forwardData transferId' payload).packet := by
  unfold forwardData
  cases makePacket kindData payload <;> rfl

/-- Neither the id nor what a command would print matters for it. -/
theorem forwarded_processCompletePacket (config : BridgeConfig) (runtime : CommandRuntime)
    (transferId : UInt16) (payload : List UInt8) :
    (processCompletePacket config runtime kindData transferId payload).forwarded =
      (bridged config payload).toList := by
  have hforwarded : ∀ action : SlotAction, action.forwarded = action.packet.toList := by
    intro action
    cases action <;> rfl
  rw [hforwarded, bridged]
  congr 1
  have hnot : ¬kindData = kindCommand := by decide
  unfold processCompletePacket
  split
  · split
    · rfl
    · exact packet_forwardData _ _ _
  · split
    · rfl
    · exact packet_forwardData _ _ _
  · rw [if_neg hnot, if_neg hnot, if_pos rfl, if_pos rfl]
    split
    · rfl
    · exact packet_forwardData _ _ _

/-! ## What the adapter and the slave agree on -/

/-- No call is cut off within a message, each slot follows the one before it in
time, no transfer fails in the host, and the slave fails to listen only while
nothing is in hand. -/
def Keeps (r : RouterRun) : RouterEvent → Prop
  | .poll now _ => ∀ sending deadline a, r.phase = .reading sending deadline (some a) →
      now < deadline
  | .writeSlot now _ => ∀ before, r.task.rxPacket.startedAt = some before →
      now < before + partialPacketTimeout
  | .writeError _ _ _ | .pollError _ _ _ => False
  | .busError => r.task.txPacket.active = false ∧ r.task.rxPacket.active = false
  | _ => True

/-- An open assembly follows the message in hand.  Where nothing is lost, a
message in hand without an assembly is one of the task's own that was not
begun, and one with an assembly was begun. -/
structure Downlink (lossless : Prop) (r : RouterRun) (current : Current)
    (waiting : List I2cPacket) : Prop where
  holding : Holding r.task current waiting
  known : ∀ m i, current = some (m, i) → Known m
  follows : ∀ a, r.phase.assembly = some a → ∃ m i, current = some (m, i) ∧ Fits m i (some a)
  alone : ∀ deadline assembly, r.phase = .reading false deadline assembly → r.pending = []
  raised : ∀ e, r.phase = .raised e → e = .noActiveTransfer
  in_order : Thinned lossless (r.returned ++ r.pending ++ due current waiting)
    (r.accepted.filterMap deliverable)
  running : lossless → r.phase.Running
  unbegun : lossless → r.phase.assembly = none →
    ∀ m i, current = some (m, i) → i = 0 ∧ OwnMessage m
  begun : lossless → ∀ a, r.phase.assembly = some a → ∀ m i, current = some (m, i) → i ≠ 0

/-- Slots number `n` and on of a payload are still to write. -/
structure Writing (lossless : Prop) (r : RouterRun) (slots : List (List UInt8))
    (payload : List UInt8) (transferId : UInt16) (n : ℕ) : Prop where
  sent_eq : ∃ front, r.sent = front ++ [payload]
  length_le : payload.length ≤ payloadLimit
  slots_eq : slots = (request transferId payload).slots.drop n
  index_lt : n < (request transferId payload).slotCount
  awaits : r.task.rxPacket.Awaits (request transferId payload) n
  held : lossless → n ≠ 0 →
    ∃ before, r.task.rxPacket.Holds (request transferId payload) n before

structure Uplink (lossless : Prop) (config : BridgeConfig) (r : RouterRun) : Prop where
  queue : List.Sublist (r.taken.map QueueCodec.wire ++ r.task.ingress.contents)
    (r.forwarded.map QueueCodec.wire)
  forwarded : Thinned lossless r.forwarded (r.written.filterMap (bridged config))
  writing : ∀ slot slots, r.phase = .writing (slot :: slots) →
    ∃ payload transferId n, Writing lossless r (slot :: slots) payload transferId n

section Steps

variable {lossless : Prop} {config : BridgeConfig} {r t : RouterRun} {current : Current}
  {waiting : List I2cPacket}

/-! ### Reads -/

/-- A poll within its time finds a slot that the reader takes, or one that
continues a message it has not. -/
theorem Downlink.fits (hr : Downlink lossless r current waiting) {m : Message} {i : ℕ}
    (hfound : (found r.task.lastTransferId current waiting).1 = some (m, i)) :
    Known m ∧ (Fits m i r.phase.assembly ∨
      r.phase.assembly = none ∧ i ≠ 0 ∧ current = some (m, i)) := by
  rcases current with _ | ⟨m', i'⟩
  · rcases waiting with _ | ⟨packet, waiting⟩
    · cases hfound
    · cases hfound
      exact ⟨known_bridgeMessage _ _, .inl (.inl rfl)⟩
  · cases hfound
    refine ⟨hr.known m i rfl, ?_⟩
    cases hassembly : r.phase.assembly with
    | none =>
        by_cases hzero : i = 0
        · exact .inl (.inl hzero)
        · exact .inr ⟨rfl, hzero, rfl⟩
    | some a =>
        obtain ⟨m', i', hsame, hfits⟩ := hr.follows a hassembly
        cases hsame
        exact .inl hfits

theorem advance_of_lt {m : Message} {i : ℕ} (hmore : i + 1 < m.slotCount) :
    advance m i = some (m, i + 1) := by
  rw [advance, if_neg (by omega)]

theorem advance_of_eq {m : Message} {i : ℕ} (hlast : i + 1 = m.slotCount) :
    advance m i = none := by
  rw [advance, if_pos hlast]

/-- What is handed out to nobody is lost. -/
theorem thinned_advance {m : Message} {i : ℕ} {front all : List (List UInt8)}
    (horder : Thinned lossless (front ++ due (some (m, i)) waiting) all) (hlossy : ¬lossless) :
    Thinned lossless (front ++ due (advance m i) waiting) all := by
  by_cases hlast : i + 1 = m.slotCount
  · rw [due] at horder
    rw [advance_of_eq hlast]
    exact horder.lose fun hp => absurd hp hlossy
  · rw [advance, if_neg hlast]
    exact horder

theorem known_advance {m m' : Message} {i i' : ℕ} (hknown : Known m)
    (hadvance : advance m i = some (m', i')) : Known m' := by
  rw [advance] at hadvance
  split at hadvance
  · cases hadvance
  · cases hadvance
    exact hknown

/-- A call has ended with an error. -/
theorem Downlink.stopped (hlossy : ¬lossless) (hold : Holding r.task current waiting)
    (hknown : ∀ m i, current = some (m, i) → Known m) (hstopped : ¬r.phase.Running)
    (hraised : ∀ e, r.phase = .raised e → e = .noActiveTransfer)
    (horder : Thinned lossless (r.returned ++ r.pending ++ due current waiting)
      (r.accepted.filterMap deliverable)) :
    Downlink lossless r current waiting where
  holding := hold
  known := hknown
  follows _ hassembly := absurd (RouterPhase.running_of_assembly hassembly) hstopped
  alone deadline assembly hphase := by
    rw [hphase] at hstopped
    exact absurd trivial hstopped
  raised := hraised
  in_order := horder
  running hp := absurd hp hlossy
  unbegun hp := absurd hp hlossy
  begun hp := absurd hp hlossy

section Polls

variable {task : I2cTask} {left : List I2cPacket} {m : Message} {i deadline : ℕ}
  {sending : Bool} {assembly : Option RxAssembly}
  (hr : Downlink lossless r current waiting)
  (hphase : r.phase = .reading sending deadline assembly)

include hr hphase

/-- Nothing is in hand. -/
theorem Downlink.afterIdle (hnone : assembly = none) (hold : Holding task none left)
    (hdue : due none left = due current waiting) :
    Downlink lossless { r with task := task, phase := .reading sending deadline assembly }
      none left where
  holding := hold
  known := nofun
  follows a h := by
    rw [hnone] at h
    cases h
  alone d b h := by
    cases h
    exact hr.alone _ _ hphase
  raised := nofun
  in_order := by
    have horder := hr.in_order
    rwa [← hdue] at horder
  running _ := trivial
  unbegun _ _ := nofun
  begun _ _ _ := nofun

/-- The reader takes a slot that is not the last. -/
theorem Downlink.afterSlot {a : RxAssembly} (hknown : Known m) (hholds : a.Holds m (i + 1))
    (hold : Holding task (some (m, i + 1)) left)
    (hdue : due (some (m, i)) left = due current waiting) :
    Downlink lossless { r with task := task, phase := .reading sending deadline (some a) }
      (some (m, i + 1)) left where
  holding := hold
  known m' i' h := by
    cases h
    exact hknown
  follows b h := by
    cases h
    exact ⟨m, i + 1, rfl, .inr ⟨a, rfl, hholds⟩⟩
  alone d b h := by
    cases h
    exact hr.alone _ _ hphase
  raised := nofun
  in_order := by
    have horder := hr.in_order
    rwa [← hdue] at horder
  running _ := trivial
  unbegun _ := nofun
  begun _ b _ m' i' h := by
    cases h
    exact Nat.succ_ne_zero i

/-- The reader takes the last slot. -/
theorem Downlink.afterPacket (hknown : Known m) (hold : Holding task none left)
    (hdue : due (some (m, i)) left = due current waiting) :
    Downlink lossless
      ({ r with task := task }.afterRead sending (.packet m.kind m.payload [])) none left := by
  have horder := hr.in_order
  rw [← hdue, due, underway] at horder
  by_cases hdata : m.kind = kindData
  · rw [if_pos hdata] at horder
    have hkeep : m.kind = kindData ∧ m.payload ≠ [] := ⟨hdata, hknown.2 hdata⟩
    cases sending with
    | true =>
        simp only [RouterRun.afterRead, if_pos hkeep, if_true]
        exact ⟨hold, nofun, nofun, nofun, nofun, by
          simpa [due, underway, List.append_assoc] using horder, fun _ => trivial,
          fun _ _ => nofun, fun _ => nofun⟩
    | false =>
        have hpending := hr.alone _ _ hphase
        simp only [RouterRun.afterRead, if_pos hkeep, Bool.false_eq_true, if_false]
        exact ⟨hold, nofun, nofun, nofun, nofun, by
          simpa [due, underway, hpending] using horder, fun _ => trivial,
          fun _ _ => nofun, fun _ => nofun⟩
  · rw [if_neg hdata] at horder
    have hskip : ¬(m.kind = kindData ∧ m.payload ≠ []) := fun h => hdata h.1
    simp only [RouterRun.afterRead, if_neg hskip]
    exact ⟨hold, nofun, nofun, nofun, nofun, horder, fun _ => trivial, fun _ _ => nofun,
      fun _ => nofun⟩

/-- The reader is given a slot in the middle of a message. -/
theorem Downlink.afterTorn (hknown : Known m) (hpos : i ≠ 0) (hnone : assembly = none)
    (hcurrent : current = some (m, i)) (hold : Holding task (advance m i) waiting) :
    Downlink lossless { r with task := task, phase := .raised .noActiveTransfer }
      (advance m i) waiting := by
  have hlossy : ¬lossless := by
    intro hp
    have hassembly : r.phase.assembly = none := by rw [hphase, hnone]; rfl
    exact hpos (hr.unbegun hp hassembly m i hcurrent).1
  have horder : Thinned lossless (r.returned ++ r.pending ++ due (advance m i) waiting)
      (r.accepted.filterMap deliverable) :=
    thinned_advance (hcurrent ▸ hr.in_order) hlossy
  exact .stopped hlossy hold (fun _ _ h => known_advance hknown h) id
    (fun _ h => (RouterPhase.raised.inj h).symm) horder

/-- The call runs out of time. -/
theorem Downlink.afterLate (huncut : lossless → assembly = none) :
    Downlink lossless { r with phase := .idle } current waiting where
  holding := hr.holding
  known := hr.known
  follows := nofun
  alone := nofun
  raised := nofun
  in_order := hr.in_order
  running _ := trivial
  unbegun hp _ := hr.unbegun hp (by rw [hphase, huncut hp]; rfl)
  begun _ := nofun

end Polls

/-- A poll within its time. -/
theorem step_poll {sending : Bool} {deadline now : ℕ} {assembly : Option RxAssembly}
    (hold : Holding r.task current waiting)
    (hphase : r.phase = .reading sending deadline assembly) (hnow : now < deadline)
    (io : ReadIo) :
    let next := found r.task.lastTransferId current waiting
    ∃ task, r.step config (.poll now io) =
        some ({ r with task := task }.afterTurn sending deadline
          (turn deadline assembly ⟨now, (handedOut next.1).1⟩)) ∧
      Holding task (handedOut next.1).2 next.2 ∧ task.ingress = r.task.ingress ∧
      ∀ m i, next.1 = some (m, i) → i < m.slotCount ∧ m.payload.length < 4294967296 := by
  intro next
  obtain ⟨task, hreply, hnext, -, -, hingress⟩ := hold.readReply io
  refine ⟨task, ?_, hnext, hingress, fun m i hfound => ?_⟩
  · simp only [RouterRun.step, hphase, if_pos hnow, hreply, Option.map_some]
    rfl
  · have hshows := hold.stageResponsePacket.shows
    change r.task.stageResponsePacket.txPacket.Shows next.1 at hshows
    rw [hfound] at hshows
    have hat : r.task.stageResponsePacket.txPacket.At m i := hshows
    have hlen := hat.length_payload
    simp only [i2cPacketMax] at hlen
    exact ⟨hat.index_lt, by omega⟩

theorem Downlink.afterPoll (hr : Downlink lossless r current waiting) {now : ℕ} {io : ReadIo}
    (hkeeps : lossless → Keeps r (.poll now io))
    (hstep : r.step config (.poll now io) = some t) :
    ∃ current waiting, Downlink lossless t current waiting := by
  cases hphase : r.phase with
  | idle => simp only [RouterRun.step, hphase, reduceCtorEq] at hstep
  | writing slots => simp only [RouterRun.step, hphase, reduceCtorEq] at hstep
  | raised e => simp only [RouterRun.step, hphase, reduceCtorEq] at hstep
  | failed slots => simp only [RouterRun.step, hphase, reduceCtorEq] at hstep
  | reading sending deadline assembly =>
      have hassembly : r.phase.assembly = assembly := by rw [hphase]; rfl
      by_cases hnow : now < deadline
      · obtain ⟨task, hpoll, hold, -, hslots⟩ :=
          @step_poll config r current waiting sending deadline now assembly hr.holding hphase
            hnow io
        rw [hpoll, Option.some.injEq] at hstep
        subst hstep
        have hdue := @due_found current waiting r.task.lastTransferId
        have hfits := fun m i => @Downlink.fits lossless r current waiting hr m i
        have hsame : ∀ m i, current = some (m, i) →
            found r.task.lastTransferId current waiting = (some (m, i), waiting) := by
          rintro m i rfl
          rfl
        generalize found r.task.lastTransferId current waiting = next at *
        obtain ⟨_ | ⟨m, i⟩, left⟩ := next
        · have hidle : IsIdleSlot (List.replicate slotSize 0) :=
            ⟨by decide, .inl fun b hb => (List.mem_replicate.mp hb).2⟩
          have hnone : assembly = none := by
            cases assembly with
            | none => rfl
            | some a =>
                obtain ⟨m, i, hcurrent, -⟩ := hr.follows a hassembly
                cases hsame m i hcurrent
          refine ⟨none, left, ?_⟩
          simp only [handedOut, I2cHost.Python.turn_idle hnow hidle]
          exact hr.afterIdle hphase hnone hold hdue
        · obtain ⟨hknown, hcases⟩ := hfits m i rfl
          obtain ⟨hi, hsize⟩ := hslots m i rfl
          rw [hassembly] at hcases
          simp only [handedOut]
          rcases hcases with hfit | ⟨hnone, hpos, hcurrent⟩
          · rcases I2cHost.Python.turn_slot hnow hknown.1 hsize hi hfit with
              ⟨hend, hturn⟩ | ⟨hmore, a, hholds, hturn⟩
            · rw [hturn]
              exact ⟨none, left, hr.afterPacket hphase hknown (advance_of_eq hend ▸ hold) hdue⟩
            · rw [hturn]
              exact ⟨some (m, i + 1), left, hr.afterSlot hphase hknown hholds
                (advance_of_lt hmore ▸ hold) hdue⟩
          · have hleft : left = waiting := congrArg Prod.snd (hsame m i hcurrent)
            subst hnone hleft
            rw [I2cHost.Python.turn_torn hnow hknown.1 hsize hi hpos]
            exact ⟨advance m i, left, hr.afterTorn hphase hknown hpos rfl hcurrent hold⟩
      · simp only [RouterRun.step, hphase, if_neg hnow, Option.some.injEq] at hstep
        subst hstep
        rw [I2cHost.Python.turn_late hnow]
        refine ⟨current, waiting, hr.afterLate hphase fun hp => ?_⟩
        cases assembly with
        | none => rfl
        | some a => exact absurd (hkeeps hp _ _ _ hphase) hnow

/-! ### Writes -/

/-- What is staged for the task itself takes the place of what was in hand. -/
theorem Downlink.restaged (hr : Downlink lossless r current waiting) {m : Message}
    (hown : OwnMessage m) (hlost : lossless → underway current = []) :
    Thinned lossless (r.returned ++ r.pending ++ due (some (m, 0)) waiting)
      (r.accepted.filterMap deliverable) := by
  have horder := hr.in_order
  rw [due] at horder
  rw [due, underway_own hown, List.nil_append]
  exact horder.lose hlost

theorem Downlink.afterWritten (hr : Downlink lossless r current waiting)
    (hclosed : r.phase.assembly = none) {task : I2cTask} (hsame : SameElsewhere r.task task)
    (action : SlotAction) {slots : List (List UInt8)} {phase : RouterPhase}
    (hphase : phase = .writing slots ∨ ¬lossless ∧ phase = .failed slots)
    (forwarded : List I2cPacket) :
    ∃ current, Downlink lossless
      { r with task := task.perform action, phase := phase, forwarded := forwarded }
      current waiting := by
  obtain ⟨hassembly, halone, hraised, hrunning⟩ : phase.assembly = none ∧
      (∀ deadline assembly, phase ≠ .reading false deadline assembly) ∧
      (∀ e, phase ≠ .raised e) ∧ (lossless → phase.Running) := by
    rcases hphase with rfl | ⟨hlossy, rfl⟩
    · exact ⟨rfl, nofun, nofun, fun _ => trivial⟩
    · exact ⟨rfl, nofun, nofun, fun hp => absurd hp hlossy⟩
  have hnone : ∀ a, phase.assembly ≠ some a := fun a h => by
    rw [hassembly] at h
    cases h
  rcases (hr.holding.elsewhere hsame).perform action with hold | ⟨m, hown, hold⟩
  · exact ⟨current, hold, hr.known, fun a h => absurd h (hnone a),
      fun d a h => absurd h (halone d a), fun e h => absurd h (hraised e), hr.in_order, hrunning,
      fun hp _ => hr.unbegun hp hclosed, fun _ a h => absurd h (hnone a)⟩
  · have hlost : lossless → underway current = [] := by
      intro hp
      rcases current with _ | ⟨m', i'⟩
      · rfl
      · exact underway_own (hr.unbegun hp hclosed m' i' rfl).2 i'
    refine ⟨some (m, 0), hold, fun m' i' h => ?_, fun a h => absurd h (hnone a),
      fun d a h => absurd h (halone d a), fun e h => absurd h (hraised e),
      hr.restaged hown hlost, hrunning, fun _ _ m' i' h => ?_, fun _ a h => absurd h (hnone a)⟩
    · cases h
      exact hown.known
    · cases h
      exact ⟨rfl, hown⟩

theorem Downlink.afterBusError (hr : Downlink lossless r current waiting)
    (hkeeps : lossless → Keeps r .busError) (hstep : r.step config .busError = some t) :
    t = { r with task := r.task.recoverI2cState } ∧
      ∃ current, Downlink lossless t current waiting := by
  have hv1 : ¬r.task.v2 = true := by
    rw [hr.holding.version]
    exact Bool.false_ne_true
  simp only [RouterRun.step, I2cTask.step, if_neg hv1, Option.map_some, Option.some.injEq]
    at hstep
  subst hstep
  refine ⟨rfl, ?_⟩
  obtain ⟨m, hown, hold⟩ := hr.holding.recover
  have hnothing : lossless → current = none := by
    intro hp
    rcases current with _ | ⟨m', i'⟩
    · rfl
    · have hactive : r.task.txPacket.At m' i' := hr.holding.shows
      have hinactive := (hkeeps hp).1
      rw [hactive.active_eq] at hinactive
      cases hinactive
  refine ⟨some (m, 0), hold, fun m' i' h => ?_, fun a h => ⟨m, 0, rfl, .inl rfl⟩, hr.alone,
    hr.raised, hr.restaged hown fun hp => ?_, hr.running, fun hp h m' i' hcurrent => ?_,
    fun hp a h => ?_⟩
  · cases h
    exact hown.known
  · rw [hnothing hp]
    rfl
  · cases hcurrent
    exact ⟨rfl, hown⟩
  · obtain ⟨m', i', hcurrent, -⟩ := hr.follows a h
    rw [hnothing hp] at hcurrent
    cases hcurrent

theorem ingress_perform (s : I2cTask) (action : SlotAction) :
    List.Sublist (s.perform action).ingress.contents
      (s.ingress.contents ++ action.forwarded.map QueueCodec.wire) := by
  cases action with
  | forward packet =>
      have hpush := (s.ingress.contents_pushOverwrite packet).1
      show List.Sublist (s.ingress.pushOverwrite packet).1.contents _
      rw [hpush]
      exact Fifo.overwrite_sublist _ _
  | ignore => exact List.sublist_append_left _ _
  | answer transferId magic text => exact List.sublist_append_left _ _
  | refuse transferId msg => exact List.sublist_append_left _ _

theorem Writing.slot_eq {payload slot : List UInt8} {slots : List (List UInt8)}
    {transferId : UInt16} {n : ℕ} (hw : Writing lossless r (slot :: slots) payload transferId n) :
    slot = (request transferId payload).slot n := by
  have hslots := hw.slots_eq
  rw [(request transferId payload).drop_slots hw.index_lt] at hslots
  exact (List.cons.inj hslots).1

/-- The next slot of a payload is taken and the last one forwards the payload,
unless something was lost. -/
theorem Writing.write {payload slot : List UInt8} {slots : List (List UInt8)}
    {transferId : UInt16} {n now : ℕ} {runtime : CommandRuntime}
    (hw : Writing lossless r (slot :: slots) payload transferId n)
    (hkeeps : lossless → Keeps r (.writeSlot now runtime)) :
    ∃ task action, r.task.writeAction config ⟨now, runtime, slot⟩ = some (task, action) ∧
      SameElsewhere r.task task ∧
      (slots = [] ∧ (action.forwarded = (bridged config payload).toList ∨
          ¬lossless ∧ action.forwarded = []) ∨
        slots ≠ [] ∧ action.forwarded = [] ∧ ∀ forwarded, Writing lossless
          { r with task := task.perform action, phase := .writing slots, forwarded := forwarded }
          slots payload transferId (n + 1)) := by
  set m := request transferId payload with hm
  have hkind : m.kind ≠ kindIdle := show kindData ≠ kindIdle by decide
  have hlen : m.payload.length ≤ i2cPacketMax :=
    hw.length_le.trans (by simp only [payloadLimit, i2cPacketMax]; omega)
  have hslots := hw.slots_eq
  rw [m.drop_slots hw.index_lt, List.cons.injEq] at hslots
  obtain ⟨hslot, hrest⟩ := hslots
  have hdone : n + 1 = m.slotCount → slots = [] := fun hlast => by
    rw [hrest, m.drop_slots_last hlast]
  have hmore : n + 1 < m.slotCount → slots ≠ [] := fun hopen => by
    rw [hrest, m.drop_slots hopen]
    exact List.cons_ne_nil _ _
  have hrx : ∀ (task : I2cTask) (action : SlotAction),
      (task.perform action).rxPacket = task.rxPacket := by
    intro task action
    cases action <;> rfl
  rcases hw.awaits.takes_or_lost now with htakes | ⟨hpos, hlost⟩
  · obtain ⟨task, action, haction, hsame, ⟨hlast, hcomplete⟩ | ⟨hopen, hignore, hholds⟩⟩ :=
      @writeAction_taken config m n r.task ⟨now, runtime, slot⟩ hkind hlen hw.index_lt hslot
        htakes
    · refine ⟨task, action, haction, hsame, .inl ⟨hdone hlast, .inl ?_⟩⟩
      rw [hcomplete]
      exact forwarded_processCompletePacket config runtime transferId payload
    · refine ⟨task, action, haction, hsame, .inr ⟨hmore hopen, by rw [hignore]; rfl, ?_⟩⟩
      intro forwarded
      have hnext : (task.perform action).rxPacket.Holds m (n + 1) now := by
        rw [hrx]
        exact hholds
      exact ⟨hw.sent_eq, hw.length_le, hrest, hopen, .inr (.inr ⟨now, hnext⟩),
        fun _ _ => ⟨now, hnext⟩⟩
  · obtain ⟨task, haction, hsame, hinactive⟩ :=
      @writeAction_lost config m n r.task ⟨now, runtime, slot⟩ hkind hlen hw.index_lt hslot
        hpos hlost
    have hlossy : ¬lossless := by
      intro hp
      obtain ⟨before, hholds⟩ := hw.held hp hpos
      have hfresh := hkeeps hp before hholds.startedAt_eq
      rw [hholds.resetIfStale hfresh, hholds.active_eq] at hlost
      cases hlost
    refine ⟨task, _, haction, hsame, ?_⟩
    by_cases hlast : n + 1 = m.slotCount
    · exact .inl ⟨hdone hlast, .inr ⟨hlossy, rfl⟩⟩
    · have hn : n < m.slotCount := hw.index_lt
      have hopen : n + 1 < m.slotCount := by omega
      have hidle : (task.perform
          (.refuse r.task.lastTransferId invalidSlotMsg)).rxPacket.active = false := by
        rw [hrx]
        exact hinactive
      exact .inr ⟨hmore hopen, rfl, fun _ => ⟨hw.sent_eq, hw.length_le, hrest, hopen,
        .inr (.inl hidle), fun hp => absurd hp hlossy⟩⟩

/-- No payload is half written. -/
abbrev RouterPhase.Apart (phase : RouterPhase) : Prop := phase.unwritten = []

theorem RouterPhase.Apart.not_writing {phase : RouterPhase} (hphase : phase.Apart)
    (slot : List UInt8) (slots : List (List UInt8)) : phase ≠ .writing (slot :: slots) := by
  rintro rfl
  cases hphase

theorem written_apart {phase : RouterPhase} (hphase : phase.Apart) (sent : List (List UInt8)) :
    phase.written sent = sent :=
  if_pos hphase

theorem written_amid {phase : RouterPhase} {slot payload : List UInt8}
    {slots front : List (List UInt8)} (hphase : phase.unwritten = slot :: slots) :
    phase.written (front ++ [payload]) = front := by
  rw [RouterPhase.written, if_neg (by simp [hphase]), List.dropLast_concat]

theorem Uplink.elsewhere (hr : Uplink lossless config r) (hphase : r.phase.Apart)
    (hafter : t.phase.Apart) (htaken : t.taken = r.taken)
    (hingress : t.task.ingress = r.task.ingress) (hforwarded : t.forwarded = r.forwarded)
    (hsent : t.sent = r.sent) : Uplink lossless config t where
  queue := by
    rw [htaken, hingress, hforwarded]
    exact hr.queue
  forwarded := by
    have h := hr.forwarded
    rw [RouterRun.written, written_apart hphase] at h
    rw [RouterRun.written, written_apart hafter, hforwarded, hsent]
    exact h
  writing slot slots h := absurd h (hafter.not_writing slot slots)

theorem Uplink.afterSend (hr : Uplink lossless config r) {payload : List UInt8}
    (hstep : r.step config (.sendPayload payload) = some t) : Uplink lossless config t := by
  simp only [RouterRun.step] at hstep
  split at hstep
  next hphase =>
    obtain ⟨hlen, hnext⟩ := Option.ite_none_right_eq_some.mp hstep
    cases hnext
    have hapart : r.phase.Apart := by rw [hphase]; rfl
    have hslots : encodeSlots kindData r.transferId payload =
        (request r.transferId payload).slots := I2cHost.Python.encodeSlots_message
    have hcons := (request r.transferId payload).slots_eq_cons
    have hforwarded := hr.forwarded
    rw [RouterRun.written, written_apart hapart] at hforwarded
    refine ⟨hr.queue, ?_, fun slot slots h => ⟨payload, r.transferId, 0, ⟨r.sent, rfl⟩, hlen, ?_,
      Message.slotCount_pos _, .inl rfl, fun _ hpos => absurd rfl hpos⟩⟩
    · rw [RouterRun.written, hslots, hcons, written_amid rfl]
      exact hforwarded
    · rw [List.drop_zero, ← hslots]
      exact (RouterPhase.writing.inj h).symm
  next => cases hstep

theorem Uplink.afterWrite (hr : Uplink lossless config r) {slot payload : List UInt8}
    {slots : List (List UInt8)} {transferId : UInt16} {n : ℕ} {task : I2cTask}
    {action : SlotAction} {phase : RouterPhase} (hphase : r.phase = .writing (slot :: slots))
    (hafter : phase = .writing slots ∨ phase = .failed slots)
    (hw : Writing lossless r (slot :: slots) payload transferId n)
    (hsame : SameElsewhere r.task task)
    (hgoes : slots = [] ∧ (action.forwarded = (bridged config payload).toList ∨
          ¬lossless ∧ action.forwarded = []) ∨
        slots ≠ [] ∧ action.forwarded = [] ∧ ∀ forwarded, Writing lossless
          { r with task := task.perform action, phase := .writing slots, forwarded := forwarded }
          slots payload transferId (n + 1)) :
    Uplink lossless config
      { r with
        task := task.perform action
        phase := phase
        forwarded := r.forwarded ++ action.forwarded } := by
  obtain ⟨front, hsent⟩ := hw.sent_eq
  have hunwritten : phase.unwritten = slots := by rcases hafter with rfl | rfl <;> rfl
  have hforwarded := hr.forwarded
  rw [RouterRun.written, hphase, hsent, written_amid rfl] at hforwarded
  have hqueue : List.Sublist
      (r.taken.map QueueCodec.wire ++ (task.perform action).ingress.contents)
      ((r.forwarded ++ action.forwarded).map QueueCodec.wire) := by
    have hadded := ingress_perform task action
    rw [hsame.ingress_eq] at hadded
    have hboth := (hadded.append_left (r.taken.map QueueCodec.wire)).trans
      (List.append_assoc _ _ _ ▸ hr.queue.append_right _)
    rw [List.map_append]
    exact hboth
  rcases hgoes with ⟨rfl, hforward⟩ | ⟨hmore, hnothing, hnext⟩
  · refine ⟨hqueue, ?_, fun slot slots h =>
      absurd h (RouterPhase.Apart.not_writing hunwritten slot slots)⟩
    rw [RouterRun.written, written_apart hunwritten, hsent, List.filterMap_append]
    have hone : [payload].filterMap (bridged config) = (bridged config payload).toList := by
      cases hbridged : bridged config payload <;> simp [hbridged]
    rw [hone]
    rcases hforward with hall | ⟨hlossy, hnone⟩
    · rw [hall]
      exact hforwarded.append _
    · rw [hnone, List.append_nil]
      exact hforwarded.miss fun hp => absurd hp hlossy
  · obtain ⟨next, rest, rfl⟩ := List.exists_cons_of_ne_nil hmore
    refine ⟨hqueue, ?_, fun slot slots h => ?_⟩
    · rw [hnothing, List.append_nil, RouterRun.written, hsent, written_amid hunwritten]
      exact hforwarded
    · rcases hafter with rfl | rfl
      · cases h
        exact ⟨payload, transferId, n + 1, hnext _⟩
      · cases h

/-! ### Other steps -/

/-- A call begins or goes on without touching the bus. -/
theorem Downlink.rephase (hr : Downlink lossless r current waiting)
    (hclosed : r.phase.assembly = none) (phase : RouterPhase) (hassembly : phase.assembly = none)
    (hrunning : phase.Running)
    (halone : ∀ deadline assembly, phase = .reading false deadline assembly → r.pending = [])
    (transferId : UInt16) (sent : List (List UInt8)) :
    Downlink lossless { r with phase := phase, transferId := transferId, sent := sent }
      current waiting where
  holding := hr.holding
  known := hr.known
  follows a h := by
    rw [show phase.assembly = some a from h] at hassembly
    cases hassembly
  alone := halone
  raised e h := by
    rw [show phase = .raised e from h] at hrunning
    cases hrunning
  in_order := hr.in_order
  running _ := hrunning
  unbegun hp _ := hr.unbegun hp hclosed
  begun _ a h := by
    rw [show phase.assembly = some a from h] at hassembly
    cases hassembly

theorem Downlink.afterRecv (hr : Downlink lossless r current waiting) {now timeout : ℕ}
    (hstep : r.step config (.recvPayload now timeout) = some t) :
    Downlink lossless t current waiting := by
  simp only [RouterRun.step] at hstep
  split at hstep
  next payload rest hphase hpending =>
    cases hstep
    have horder := hr.in_order
    rw [hpending] at horder
    have hidle : ∀ deadline assembly, r.phase ≠ .reading false deadline assembly := by
      rw [hphase]
      exact nofun
    exact ⟨hr.holding, hr.known, hr.follows, fun d a h => absurd h (hidle d a), hr.raised,
      by simpa using horder, hr.running, hr.unbegun, hr.begun⟩
  next hphase hpending =>
    cases hstep
    have hclosed : r.phase.assembly = none := by rw [hphase]; rfl
    exact hr.rephase hclosed (.reading false (now + timeout) none) rfl trivial
      (fun _ _ _ => hpending) r.transferId r.sent
  next => cases hstep

theorem Downlink.afterAct (hr : Downlink lossless r current waiting) (act : SessionAct) :
    ∃ waiting, Downlink lossless (r.act act) current waiting := by
  cases act with
  | takeRequest =>
      exact ⟨waiting, ⟨hr.holding.version, hr.holding.shows, hr.holding.contents⟩, hr.known,
        hr.follows, hr.alone, hr.raised, hr.in_order, hr.running, hr.unbegun, hr.begun⟩
  | queueResponse packet =>
      set more := if (r.task.rxResp.tryPushRef packet).2 then [packet] else [] with hmore
      have hcontents := r.task.rxResp.contents_push packet
      have hqueued : (r.task.rxResp.tryPushRef packet).1.contents =
          (waiting ++ more).map QueueCodec.wire := by
        rw [hcontents, hr.holding.contents, List.map_append, hmore]
        split <;> rfl
      have horder := hr.in_order.append (more.filterMap deliverable)
      refine ⟨waiting ++ more, ⟨hr.holding.version, hr.holding.shows, hqueued⟩, hr.known,
        hr.follows, hr.alone, hr.raised, ?_, hr.running, hr.unbegun, hr.begun⟩
      show Thinned lossless (r.returned ++ r.pending ++ due current (waiting ++ more))
        ((r.accepted ++ more).filterMap deliverable)
      rw [List.filterMap_append, due, List.filterMap_append]
      simpa only [due, List.append_assoc] using horder

theorem uplink_act (hr : Uplink lossless config r) (act : SessionAct) :
    Uplink lossless config (r.act act) := by
  cases act with
  | queueResponse packet =>
      refine ⟨hr.queue, hr.forwarded, fun slot slots h => ?_⟩
      obtain ⟨payload, transferId, n, hw⟩ := hr.writing slot slots h
      exact ⟨payload, transferId, n, hw.sent_eq, hw.length_le, hw.slots_eq, hw.index_lt,
        hw.awaits, hw.held⟩
  | takeRequest =>
      have hqueue := hr.queue
      rw [r.task.ingress.contents_pop, ← List.append_assoc, ← List.map_append] at hqueue
      refine ⟨hqueue, hr.forwarded, fun slot slots h => ?_⟩
      obtain ⟨payload, transferId, n, hw⟩ := hr.writing slot slots h
      exact ⟨payload, transferId, n, hw.sent_eq, hw.length_le, hw.slots_eq, hw.index_lt,
        hw.awaits, hw.held⟩

theorem Uplink.afterBusError (hr : Uplink lossless config r)
    (hkeeps : lossless → Keeps r .busError) :
    Uplink lossless config { r with task := r.task.recoverI2cState } := by
  refine ⟨hr.queue, hr.forwarded, fun slot slots h => ?_⟩
  obtain ⟨payload, transferId, n, hw⟩ := hr.writing slot slots h
  refine ⟨payload, transferId, n, hw.sent_eq, hw.length_le, hw.slots_eq, hw.index_lt,
    .inr (.inl rfl), fun hp hpos => ?_⟩
  obtain ⟨before, hholds⟩ := hw.held hp hpos
  have hinactive := (hkeeps hp).2
  rw [hholds.active_eq] at hinactive
  cases hinactive

/-- A turn of `read_packet` leaves what has been sent alone. -/
theorem uplink_afterTurn (hr : Uplink lossless config r) (hapart : r.phase.Apart)
    {task : I2cTask} (hingress : task.ingress = r.task.ingress) (sending : Bool) (deadline : ℕ)
    (outcome : Turn) :
    Uplink lossless config ({ r with task := task }.afterTurn sending deadline outcome) := by
  cases outcome with
  | again assembly => exact hr.elsewhere hapart rfl rfl hingress rfl rfl
  | done result =>
      simp only [RouterRun.afterTurn]
      cases result [] with
      | reading => exact hr.elsewhere hapart hapart rfl hingress rfl rfl
      | timedOut => exact hr.elsewhere hapart rfl rfl hingress rfl rfl
      | raised e => exact hr.elsewhere hapart rfl rfl hingress rfl rfl
      | packet kind payload rest =>
          simp only [RouterRun.afterRead]
          split
          · cases sending <;> exact hr.elsewhere hapart rfl rfl hingress rfl rfl
          · exact hr.elsewhere hapart rfl rfl hingress rfl rfl

theorem Uplink.afterPoll (hr : Uplink lossless config r)
    (hdown : Downlink lossless r current waiting) {now : ℕ} {io : ReadIo}
    (hstep : r.step config (.poll now io) = some t) : Uplink lossless config t := by
  simp only [RouterRun.step] at hstep
  split at hstep
  next sending deadline assembly hphase =>
    have hapart : r.phase.Apart := by rw [hphase]; rfl
    split at hstep
    next =>
      obtain ⟨task, hreply, -, -, -, hingress⟩ := hdown.holding.readReply io
      rw [hreply, Option.map_some, Option.some.injEq] at hstep
      subst hstep
      exact uplink_afterTurn hr hapart hingress _ _ _
    next =>
      cases hstep
      exact uplink_afterTurn hr hapart rfl _ _ _
  next => cases hstep

/-! ### Failed transfers -/

/-- The slave has had no part in it. -/
theorem Downlink.afterFailure (hr : Downlink lossless r current waiting) (hlossy : ¬lossless)
    (slots : List (List UInt8)) :
    Downlink lossless { r with phase := .failed slots } current waiting :=
  .stopped hlossy hr.holding hr.known id nofun hr.in_order

/-- The slave hands out a slot that the host does not get. -/
theorem Downlink.afterLostReply (hr : Downlink lossless r current waiting)
    (hlossy : ¬lossless) (io : ReadIo) :
    ∃ task reply current waiting, r.task.readReply io = some (task, reply) ∧
      task.ingress = r.task.ingress ∧
      Downlink lossless { r with task := task, phase := .failed [] } current waiting := by
  obtain ⟨task, hreply, hold, -, -, hingress⟩ := hr.holding.readReply io
  have horder := hr.in_order
  rw [← @due_found current waiting r.task.lastTransferId] at horder
  have hfits := fun m i => @Downlink.fits lossless r current waiting hr m i
  generalize found r.task.lastTransferId current waiting = next at *
  obtain ⟨_ | ⟨m, i⟩, left⟩ := next
  · exact ⟨task, _, none, left, hreply, hingress, .stopped hlossy hold nofun id nofun horder⟩
  · have hknown := (hfits m i rfl).1
    exact ⟨task, _, advance m i, left, hreply, hingress,
      .stopped hlossy hold (fun _ _ h => known_advance hknown h) id nofun
        (thinned_advance horder hlossy)⟩

theorem Uplink.afterFailure (hr : Uplink lossless config r) {slots : List (List UInt8)}
    (hunwritten : r.phase.unwritten = slots) {task : I2cTask}
    (hingress : task.ingress = r.task.ingress) :
    Uplink lossless config { r with task := task, phase := .failed slots } where
  queue := by
    show List.Sublist (_ ++ task.ingress.contents) _
    rw [hingress]
    exact hr.queue
  forwarded := by
    have h := hr.forwarded
    rw [RouterRun.written, RouterPhase.written, hunwritten] at h
    exact h
  writing := nofun

end Steps

end I2c
end PicoFi
