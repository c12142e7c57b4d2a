import PicoFi.ForwardTcp
import PicoFi.LocalCommands
import PicoFi.UartResync

/-!
# The UART bridge on two cores

Core 1 owns the UART: one loop reads frames from it, answers commands and
admits data to the upload mailbox while the link is active; another writes the
packets of the download mailbox.  Core 0 connects, drains the upload mailbox,
sets the link flag and forwards between the mailboxes and TCP, until the
session ends or the network address changes.  The cores share the two
mailboxes and the flag only.  A step is what one of the loops does between two
points at which the other core can act, so that the check of the flag and the
push it guards are two steps.
-/

namespace PicoFi
namespace Uart

open Buffer LinkFrame Mailbox PicoFi.Stream UartMailbox

/-! ## Core 1 -/

/-- Where `uart_receive` is. -/
inductive ReceiverState
  /-- At the head of the loop, before `reader.read`. -/
  | call
  | read (request : ReadRequest)
  /-- A command was read. -/
  | command (packet : Packet)
  /-- Data was read, before the flag is loaded. -/
  | gate (packet : Packet)
  /-- The flag was set, before `admit_uart`. -/
  | admitUart (packet : Packet)
  /-- In the pause after an error. -/
  | pause

inductive ReceiverEvent
  | call
  /-- The UART delivers these bytes. -/
  | read (bytes : List UInt8)
  | fault
  | command (runtime : CommandRuntime)
  | gate
  | admitUart
  | pause

inductive TransmitterEvent
  | pop
  /-- The UART accepts the next `n` bytes. -/
  | write (n : ℕ)
  | fault

/-- The sync pair `uart_transmit` writes in front of a packet. -/
def uartPair (kind : UInt8) : UInt8 × UInt8 :=
  (kind, if kind = reqCommandMagic then respCommandMagic else respDataMagic)

/-- The buffers `uart_transmit` hands to `write_all`, in order. -/
def uartBuffers (packet : Packet) : List (List UInt8) :=
  let pair := uartPair packet.kind
  [[pair.1, pair.2] ++ le16 packet.payload.length, packet.payload]

/-- The packet with the reply to a command. -/
def replyPacket (config : BridgeConfig) (runtime : CommandRuntime)
    (line : List UInt8) : Packet :=
  Packet.finish reqCommandMagic
    (FixedBytes.padded (renderLocalBridgeCommand config runtime line))
    (renderLocalBridgeCommand config runtime line).length
    ((length_renderLocalBridgeCommand_le config runtime line).trans (by decide))

/-! ## Core 0 -/

/-- Where `run` and the loop of `app` around it are. -/
inductive NetTask
  /-- Waiting for the link and an address. -/
  | waiting
  | startupDelay
  /-- At the head of the loop, before the flag is cleared. -/
  | loopHead
  | drain
  | connect
  | handshake
  /-- The handshake has succeeded, the flag is not set yet. -/
  | agreed
  | session
  /-- The connection or the handshake has failed, the flag is not cleared again
  yet. -/
  | refused
  /-- Behind the session, before the flag is cleared. -/
  | sessionOver
  /-- In `flush` or the reconnect delay. -/
  | pause
  /-- `run` was dropped, `app` has not cleared the flag yet. -/
  | dropped
  deriving DecidableEq

/-- The points at which `run` awaits something and can be dropped. -/
def NetTask.Awaits : NetTask → Prop
  | .startupDelay | .connect | .handshake | .session | .pause => True
  | _ => False

instance (task : NetTask) : Decidable task.Awaits := by
  cases task <;> simp only [NetTask.Awaits] <;> infer_instance

inductive NetEvent
  | begin
  | delayed
  | clear
  | drain
  | drained
  | connect (ok : Bool)
  | handshake (ok : Bool)
  | activate
  | send (e : SendEvent)
  | receive (e : ReceiveEvent)
  | returned
  | deactivate
  | resume
  /-- The address changed. -/
  | drop
  | clearDropped

/-! ## Both cores -/

structure UartBridge where
  config : BridgeConfig
  /-- The bridge connects to a host. -/
  client : Bool
  task : NetTask
  linkActive : Bool
  /-- The mailboxes, and the loops of the session. -/
  net : ForwardTcp
  bufs : ReadBuffers
  receiver : ReceiverState
  transmitter : SendState
  rxFrames : UInt32
  rxDropped : UInt32
  txFrames : UInt32
  rxErrors : UInt32

inductive CoreEvent
  | net (e : NetEvent)
  | receiver (e : ReceiverEvent)
  | transmitter (e : TransmitterEvent)

namespace UartBridge

def boot (config : BridgeConfig) (client : Bool) (upload download : PacketQueue) :
    UartBridge where
  config := config
  client := client
  task := .waiting
  linkActive := false
  net := ForwardTcp.start upload download
  bufs := ⟨FrameReader.new uartMagic true, List.replicate maxPayload 0⟩
  receiver := .call
  transmitter := .pop
  rxFrames := 0
  rxDropped := 0
  txFrames := 0
  rxErrors := 0

/-- A call of `read` parks, or returns a frame or an error; `none` is an index
out of range. -/
def settleRead (s : UartBridge) (next : ReadBuffers × CallStatus) :
    Option UartBridge :=
  match next.2 with
  | .awaiting request => some { s with bufs := next.1, receiver := .read request }
  | .returned (.ok kind len) =>
      (finishPacket kind next.1.payload len).map fun packet =>
        { s with
          bufs := next.1
          receiver := if kind = reqCommandMagic then .command packet else .gate packet }
  | .returned .err =>
      some { s with bufs := next.1, receiver := .pause, rxErrors := s.rxErrors + 1 }
  | .panicked => none

def receiverStep (s : UartBridge) : ReceiverEvent → Option UartBridge
  | .call =>
      match s.receiver with
      | .call => s.settleRead s.bufs.enter
      | _ => none
  | .read bytes =>
      match s.receiver with
      | .read request =>
          if bytes ≠ [] ∧ bytes.length ≤ s.bufs.requestSize request then
            s.settleRead (s.bufs.resume request (some bytes))
          else none
      | _ => none
  | .fault =>
      match s.receiver with
      | .read request => s.settleRead (s.bufs.resume request none)
      | _ => none
  | .command runtime =>
      match s.receiver with
      | .command packet =>
          let reply := replyPacket s.config { runtime with linkActive := s.linkActive }
            (trimAsciiLine packet.payload)
          match s.net.download.tryPushRef reply with
          | (download, true) =>
              some { s with net := { s.net with download := download }, receiver := .call }
          | (download, false) =>
              some { s with
                net := { s.net with download := download }
                receiver := .call
                rxDropped := s.rxDropped + 1 }
      | _ => none
  | .gate =>
      match s.receiver with
      | .gate packet =>
          some { s with receiver := if s.linkActive then .admitUart packet else .call }
      | _ => none
  | .admitUart =>
      match s.receiver with
      | .admitUart packet =>
          match s.net.upload.tryPushRef packet with
          | (upload, true) =>
              some { s with
                net := { s.net with upload := upload }
                receiver := .call
                rxFrames := s.rxFrames + 1 }
          | (upload, false) =>
              some { s with
                net := { s.net with upload := upload }
                receiver := .call
                rxFrames := s.rxFrames + 1
                rxDropped := s.rxDropped + 1 }
      | _ => none
  | .pause =>
      match s.receiver with
      | .pause => some { s with receiver := .call }
      | _ => none

/-- Both `write_all` calls of a packet are one loop over its buffers; an error
in either gives the packet up. -/
def transmitterStep (s : UartBridge) : TransmitterEvent → Option UartBridge
  | .pop =>
      match s.transmitter, s.net.download.tryPop with
      | .pop, (download, some packet) =>
          some { s with
            net := { s.net with download := download }
            transmitter := afterWrite (uartBuffers packet) }
      | _, _ => none
  | .write n =>
      match s.transmitter with
      | .write (buffer :: rest) =>
          if 0 < n ∧ n ≤ buffer.length then
            match afterWrite (buffer.drop n :: rest) with
            | .pop => some { s with transmitter := .pop, txFrames := s.txFrames + 1 }
            | .write rest => some { s with transmitter := .write rest }
          else none
      | _ => none
  | .fault =>
      match s.transmitter with
      | .write _ => some { s with transmitter := .pop, rxErrors := s.rxErrors + 1 }
      | .pop => none

def netStep (s : UartBridge) : NetEvent → Option UartBridge
  | .begin =>
      if s.task = .waiting then
        some { s with task := if s.client then .startupDelay else .loopHead }
      else none
  | .delayed => if s.task = .startupDelay then some { s with task := .loopHead } else none
  | .clear =>
      if s.task = .loopHead then some { s with linkActive := false, task := .drain }
      else none
  | .drain =>
      match s.task, s.net.upload.tryPop with
      | .drain, (upload, some _) => some { s with net := { s.net with upload := upload } }
      | _, _ => none
  | .drained =>
      match s.task, s.net.upload.tryPop with
      | .drain, (_, none) => some { s with task := .connect }
      | _, _ => none
  | .connect ok =>
      if s.task = .connect then
        some { s with task := if ok then .handshake else .refused }
      else none
  | .handshake ok =>
      if s.task = .handshake then
        some { s with task := if ok then .agreed else .refused }
      else none
  | .activate =>
      if s.task = .agreed then
        some { s with
          linkActive := true
          task := .session
          net := ForwardTcp.start s.net.upload s.net.download }
      else none
  | .send e =>
      if s.task = .session then
        (s.net.step (.send e)).map fun net => { s with net := net }
      else none
  | .receive e =>
      if s.task = .session then
        (s.net.step (.receive e)).map fun net => { s with net := net }
      else none
  | .returned =>
      if s.task = .session ∧ s.net.ended = true then some { s with task := .sessionOver }
      else none
  | .deactivate =>
      if s.task = .refused ∨ s.task = .sessionOver then
        some { s with linkActive := false, task := .pause }
      else none
  | .resume => if s.task = .pause then some { s with task := .loopHead } else none
  | .drop => if s.task.Awaits then some { s with task := .dropped } else none
  | .clearDropped =>
      if s.task = .dropped then some { s with linkActive := false, task := .waiting }
      else none

def step (s : UartBridge) : CoreEvent → Option UartBridge
  | .net e => s.netStep e
  | .receiver e => s.receiverStep e
  | .transmitter e => s.transmitterStep e

end UartBridge

/-! ## Runs with a record of sessions and packets -/

structure UartRun where
  state : UartBridge
  /-- The number of sessions that have begun. -/
  session : ℕ
  /-- The session in which the last packet passed the gate. -/
  passed : ℕ
  /-- The packets of the upload mailbox, each with the session in which it
  passed the gate. -/
  queued : List (ℕ × List UInt8)
  /-- Those the running session has popped. -/
  popped : List (ℕ × List UInt8)

namespace UartRun

def boot (config : BridgeConfig) (client : Bool) (upload download : PacketQueue) :
    UartRun :=
  ⟨UartBridge.boot config client upload download, 0, 0,
    upload.contents.map fun wire => (0, wire), []⟩

def queuedBy (r : UartRun) : CoreEvent → List (ℕ × List UInt8)
  | .receiver .admitUart =>
      match r.state.receiver with
      | .admitUart packet =>
          if (r.state.net.upload.tryPushRef packet).2 then
            r.queued ++ [(r.passed, QueueCodec.wire packet)]
          else r.queued
      | _ => r.queued
  | .net .drain | .net (.send .pop) => r.queued.tail
  | _ => r.queued

def poppedBy (r : UartRun) : CoreEvent → List (ℕ × List UInt8)
  | .net .activate => []
  | .net (.send .pop) => r.popped ++ r.queued.take 1
  | _ => r.popped

def step (r : UartRun) (e : CoreEvent) : Option UartRun :=
  (r.state.step e).map fun state =>
    { state := state
      session := if let .net .activate := e then r.session + 1 else r.session
      passed := if let .receiver .gate := e then r.session else r.passed
      queued := r.queuedBy e
      popped := r.poppedBy e }

/-- The session of the packet that has passed the gate and is not pushed
yet. -/
def pending (r : UartRun) : List ℕ :=
  match r.state.receiver with
  | .admitUart _ => [r.passed]
  | _ => []

/-- The sessions of what the next session finds when it begins. -/
def held (r : UartRun) : List ℕ := r.queued.map Prod.fst ++ r.pending

end UartRun

/-! ## What was let pass before a session began -/

/-- At most the first one is of an earlier session. -/
def AtMostOneStale (session : ℕ) (tags : List ℕ) : Prop :=
  ∃ stale fresh, tags = stale ++ fresh ∧ stale.length ≤ 1 ∧
    (∀ tag ∈ stale, tag < session) ∧ ∀ tag ∈ fresh, tag = session

theorem AtMostOneStale.concat {session : ℕ} {tags : List ℕ}
    (htags : AtMostOneStale session tags) : AtMostOneStale session (tags ++ [session]) := by
  obtain ⟨stale, fresh, rfl, hlen, hstale, hfresh⟩ := htags
  refine ⟨stale, fresh ++ [session], by simp, hlen, hstale, fun tag htag => ?_⟩
  rcases List.mem_append.mp htag with hold | hnew
  · exact hfresh tag hold
  · exact List.mem_singleton.mp hnew

theorem AtMostOneStale.of_concat {session tag : ℕ} {tags : List ℕ}
    (htags : AtMostOneStale session (tags ++ [tag])) : AtMostOneStale session tags := by
  obtain ⟨stale, fresh, heq, hlen, hstale, hfresh⟩ := htags
  rcases List.eq_nil_or_concat fresh with rfl | ⟨front, last, rfl⟩
  · rw [List.append_nil] at heq
    have htags : tags <+: stale := ⟨[tag], heq⟩
    exact ⟨tags, [], by simp, htags.length_le.trans hlen,
      fun other h => hstale other (htags.subset h), by simp⟩
  · rw [List.concat_eq_append, ← List.append_assoc] at heq
    have hfront := List.append_inj_left' heq rfl
    refine ⟨stale, front, hfront, hlen, hstale, fun other h => hfresh other ?_⟩
    rw [List.concat_eq_append]
    exact List.mem_append_left _ h

theorem AtMostOneStale.of_append {session : ℕ} {tags back : List ℕ}
    (htags : AtMostOneStale session (tags ++ back)) : AtMostOneStale session tags := by
  induction back using List.reverseRecOn with
  | nil => rwa [List.append_nil] at htags
  | append_singleton back tag ih =>
      rw [← List.append_assoc] at htags
      exact ih htags.of_concat

/-- The flag is set only around a session, and what is queued while it is set
has passed the gate under it, but for one packet. -/
structure Gated (r : UartRun) : Prop where
  queued_eq : r.queued.map Prod.snd = r.state.net.upload.contents
  tags_le : ∀ tag ∈ r.held, tag ≤ r.session
  active : r.state.linkActive = true →
    r.state.task = .session ∨ r.state.task = .sessionOver ∨ r.state.task = .dropped
  session_active : r.state.task = .session → r.state.linkActive = true
  drained : r.state.task = .connect ∨ r.state.task = .handshake ∨ r.state.task = .agreed →
    r.held.length ≤ 1
  fresh : r.state.linkActive = true →
    AtMostOneStale r.session (r.popped.map Prod.fst ++ r.held)

section Steps

variable {r t : UartRun}

theorem gated_boot (config : BridgeConfig) (client : Bool)
    (upload download : PacketQueue) :
    Gated (UartRun.boot config client upload download) := by
  constructor
  · simp [UartRun.boot, UartBridge.boot, ForwardTcp.start, Function.comp_def]
  · simp [UartRun.boot, UartRun.held, UartRun.pending, UartBridge.boot]
  · simp [UartRun.boot, UartBridge.boot]
  · simp [UartRun.boot, UartBridge.boot]
  · simp [UartRun.boot, UartBridge.boot]
  · simp [UartRun.boot, UartBridge.boot]

/-- A step that changes neither what a session would find nor the phase of
core 0. -/
theorem Gated.ofHeld (hr : Gated r) (hsession : t.session = r.session)
    (hqueued : t.queued.map Prod.snd = t.state.net.upload.contents)
    (hpopped : t.popped = r.popped) (hheld : t.held = r.held)
    (htask : t.state.task = r.state.task)
    (hactive : t.state.linkActive = r.state.linkActive) : Gated t := by
  constructor
  · exact hqueued
  · rw [hheld, hsession]
    exact hr.tags_le
  · rw [hactive, htask]
    exact hr.active
  · rw [hactive, htask]
    exact hr.session_active
  · rw [htask, hheld]
    exact hr.drained
  · rw [hactive, hsession, hpopped, hheld]
    exact hr.fresh

theorem Gated.quietly (hr : Gated r) (hsession : t.session = r.session)
    (hqueued : t.queued = r.queued) (hpopped : t.popped = r.popped)
    (hpending : t.pending = r.pending)
    (hupload : t.state.net.upload.contents = r.state.net.upload.contents)
    (htask : t.state.task = r.state.task)
    (hactive : t.state.linkActive = r.state.linkActive) : Gated t := by
  refine hr.ofHeld hsession ?_ hpopped ?_ htask hactive
  · rw [hqueued, hupload]
    exact hr.queued_eq
  · rw [UartRun.held, hqueued, hpending, UartRun.held]

/-- A packet that passes the gate is of the running session. -/
theorem Gated.afterPass (hr : Gated r) (hsession : t.session = r.session)
    (hqueued : t.queued = r.queued) (hpopped : t.popped = r.popped)
    (hbefore : r.pending = []) (hpending : t.pending = [r.session])
    (hstate : t.state.net = r.state.net) (htask : t.state.task = r.state.task)
    (hset : r.state.linkActive = true)
    (hactive : t.state.linkActive = r.state.linkActive) : Gated t := by
  have hheld : t.held = r.held ++ [r.session] := by
    rw [UartRun.held, hqueued, hpending, UartRun.held, hbefore, List.append_nil]
  constructor
  · rw [hqueued, hstate]
    exact hr.queued_eq
  · intro tag htag
    rw [hheld] at htag
    rw [hsession]
    rcases List.mem_append.mp htag with hold | hnew
    · exact hr.tags_le tag hold
    · exact Nat.le_of_eq (List.mem_singleton.mp hnew)
  · rw [hactive, htask]
    exact hr.active
  · rw [hactive, htask]
    exact hr.session_active
  · intro hconnecting
    rw [htask] at hconnecting
    rcases hr.active hset with h | h | h <;> simp [h] at hconnecting
  · intro _
    rw [hsession, hpopped, hheld, ← List.append_assoc]
    exact (hr.fresh hset).concat

/-- A packet that the full mailbox refuses is gone. -/
theorem Gated.afterRefusal (hr : Gated r) (hsession : t.session = r.session)
    (hqueued : t.queued = r.queued) (hpopped : t.popped = r.popped)
    (hbefore : r.pending = [r.passed]) (hpending : t.pending = [])
    (hupload : t.state.net.upload.contents = r.state.net.upload.contents)
    (htask : t.state.task = r.state.task)
    (hactive : t.state.linkActive = r.state.linkActive) : Gated t := by
  have hheld : r.held = t.held ++ [r.passed] := by
    rw [UartRun.held, hbefore, UartRun.held, hqueued, hpending, List.append_nil]
  constructor
  · rw [hqueued, hupload]
    exact hr.queued_eq
  · intro tag htag
    rw [hsession]
    refine hr.tags_le tag ?_
    rw [hheld]
    exact List.mem_append_left _ htag
  · rw [hactive, htask]
    exact hr.active
  · rw [hactive, htask]
    exact hr.session_active
  · intro hconnecting
    have hlen := hr.drained (htask ▸ hconnecting)
    rw [hheld, List.length_append] at hlen
    omega
  · intro hset
    have hfresh := hr.fresh (hactive ▸ hset)
    rw [hheld, ← List.append_assoc] at hfresh
    rw [hsession, hpopped]
    exact hfresh.of_concat

theorem pending_eq_nil (hpushing : ∀ packet, r.state.receiver ≠ .admitUart packet) :
    r.pending = [] := by
  unfold UartRun.pending
  split
  · next packet hreceiver => exact absurd hreceiver (hpushing packet)
  · rfl

/-- A poll of the reader leaves the mailboxes and core 0 alone. -/
theorem settleRead_frame {s u : UartBridge} {next : ReadBuffers × CallStatus}
    (hsettle : s.settleRead next = some u) :
    u.net = s.net ∧ u.task = s.task ∧ u.linkActive = s.linkActive ∧
      u.transmitter = s.transmitter ∧ ∀ packet, u.receiver ≠ .admitUart packet := by
  unfold UartBridge.settleRead at hsettle
  split at hsettle
  · cases hsettle
    exact ⟨rfl, rfl, rfl, rfl, by simp⟩
  · next kind len heq =>
    obtain ⟨packet, -, rfl⟩ := Option.map_eq_some_iff.mp hsettle
    refine ⟨rfl, rfl, rfl, rfl, fun other => ?_⟩
    simp only
    split <;> simp
  · cases hsettle
    exact ⟨rfl, rfl, rfl, rfl, by simp⟩
  · cases hsettle

/-- Where `read` is polled, nothing is pending before or behind the poll. -/
theorem Gated.afterPoll (hr : Gated r) {e : CoreEvent}
    (hevent : e = .receiver .call ∨ (∃ bytes, e = .receiver (.read bytes)) ∨
      e = .receiver .fault)
    (hreceiver : ∀ packet, r.state.receiver ≠ .admitUart packet) {u : UartBridge}
    {next : ReadBuffers × CallStatus} (hsettle : r.state.settleRead next = some u)
    (hstate : r.state.step e = some u) (hstep : r.step e = some t) : Gated t := by
  obtain ⟨state, hnext, rfl⟩ := Option.map_eq_some_iff.mp hstep
  obtain rfl : u = state := Option.some.inj (hstate.symm.trans hnext)
  obtain ⟨hnet, htask, hactive, -, hpushing⟩ := settleRead_frame hsettle
  have hupload := congrArg (fun net => net.upload.contents) hnet
  rcases hevent with rfl | ⟨bytes, rfl⟩ | rfl
  all_goals
    exact hr.quietly rfl rfl rfl
      ((pending_eq_nil hpushing).trans (pending_eq_nil hreceiver).symm)
      hupload htask hactive

theorem Gated.afterReceiver (hr : Gated r) {e : ReceiverEvent}
    (hstep : r.step (.receiver e) = some t) : Gated t := by
  have hwhole := hstep
  obtain ⟨state, hstate, rfl⟩ := Option.map_eq_some_iff.mp hstep
  have hsame := hstate
  simp only [UartBridge.step] at hstate
  cases hreceiver : r.state.receiver with
  | call =>
      cases e <;> simp only [UartBridge.receiverStep, hreceiver, reduceCtorEq] at hstate
      exact hr.afterPoll (.inl rfl) (by simp [hreceiver]) hstate hsame hwhole
  | read request =>
      cases e <;> simp only [UartBridge.receiverStep, hreceiver, reduceCtorEq] at hstate
      · obtain ⟨-, hsettle⟩ := Option.ite_none_right_eq_some.mp hstate
        exact hr.afterPoll (.inr (.inl ⟨_, rfl⟩)) (by simp [hreceiver]) hsettle hsame hwhole
      · exact hr.afterPoll (.inr (.inr rfl)) (by simp [hreceiver]) hstate hsame hwhole
  | pause =>
      cases e <;> simp only [UartBridge.receiverStep, hreceiver, reduceCtorEq] at hstate
      cases hstate
      exact hr.quietly rfl rfl rfl (by simp [UartRun.pending, hreceiver]) rfl rfl rfl
  | command packet =>
      cases e <;> simp only [UartBridge.receiverStep, hreceiver, reduceCtorEq] at hstate
      split at hstate <;> cases hstate
      all_goals
        exact hr.quietly rfl rfl rfl (by simp [UartRun.pending, hreceiver]) rfl rfl rfl
  | gate packet =>
      cases e <;> simp only [UartBridge.receiverStep, hreceiver, reduceCtorEq] at hstate
      cases hstate
      cases hset : r.state.linkActive with
      | true =>
          exact hr.afterPass rfl rfl rfl (by simp [UartRun.pending, hreceiver])
            (by simp [UartRun.pending]) rfl rfl hset hset.symm
      | false =>
          exact hr.quietly rfl rfl rfl
            (by simp [UartRun.pending, hreceiver]) rfl rfl hset.symm
  | admitUart packet =>
      cases e <;> simp only [UartBridge.receiverStep, hreceiver, reduceCtorEq] at hstate
      have hbefore : r.pending = [r.passed] := by simp [UartRun.pending, hreceiver]
      have hcontents := r.state.net.upload.contents_push packet
      rcases hpush : r.state.net.upload.tryPushRef packet with ⟨upload, _ | _⟩
      · rw [hpush] at hcontents
        simp only [hpush, Option.some.injEq] at hstate
        subst hstate
        refine hr.afterRefusal rfl ?_ rfl hbefore rfl ?_ rfl rfl
        · simp [UartRun.queuedBy, hreceiver, hpush]
        · simpa using hcontents
      · rw [hpush] at hcontents
        simp only [hpush, Option.some.injEq] at hstate
        subst hstate
        refine hr.ofHeld rfl ?_ rfl ?_ rfl rfl
        · simp only [UartRun.queuedBy, hreceiver, hpush, if_true, List.map_append,
            List.map_cons, List.map_nil, hcontents, hr.queued_eq]
        · simp [UartRun.held, UartRun.queuedBy, UartRun.pending, hreceiver, hpush]

theorem Gated.afterTransmitter (hr : Gated r) {e : TransmitterEvent}
    (hstep : r.step (.transmitter e) = some t) : Gated t := by
  obtain ⟨state, hstate, rfl⟩ := Option.map_eq_some_iff.mp hstep
  have hframe : state.net.upload = r.state.net.upload ∧ state.task = r.state.task ∧
      state.linkActive = r.state.linkActive ∧ state.receiver = r.state.receiver := by
    simp only [UartBridge.step] at hstate
    unfold UartBridge.transmitterStep at hstate
    repeat' split at hstate
    all_goals first
      | cases hstate
        exact ⟨rfl, rfl, rfl, rfl⟩
      | cases hstate
  obtain ⟨hupload, htask, hactive, hreceiver⟩ := hframe
  have hpending : UartRun.pending ⟨state, r.session, r.passed, r.queued, r.popped⟩ =
      r.pending := by
    simp only [UartRun.pending, hreceiver]
  exact hr.quietly rfl rfl rfl hpending (congrArg _ hupload) htask hactive

/-- Core 0 goes on without touching the mailbox. -/
theorem Gated.afterMove (hr : Gated r) (hsession : t.session = r.session)
    (hqueued : t.queued = r.queued) (hpopped : t.popped = r.popped)
    (hpending : t.pending = r.pending) (hnet : t.state.net = r.state.net)
    (hactive : t.state.linkActive = true → r.state.linkActive = true ∧
      (t.state.task = .sessionOver ∨ t.state.task = .dropped))
    (htask : t.state.task ≠ .session)
    (hdrained : t.state.task = .connect ∨ t.state.task = .handshake ∨
      t.state.task = .agreed → r.held.length ≤ 1) : Gated t := by
  have hheld : t.held = r.held := by
    rw [UartRun.held, hqueued, hpending, UartRun.held]
  constructor
  · rw [hqueued, hnet]
    exact hr.queued_eq
  · rw [hheld, hsession]
    exact hr.tags_le
  · exact fun hset => .inr (hactive hset).2
  · exact fun hrunning => absurd hrunning htask
  · rw [hheld]
    exact hdrained
  · intro hset
    rw [hsession, hpopped, hheld]
    exact hr.fresh (hactive hset).1

theorem Gated.inactive (hr : Gated r)
    (htask : r.state.task ≠ .session ∧ r.state.task ≠ .sessionOver ∧
      r.state.task ≠ .dropped) : r.state.linkActive = false := by
  cases hset : r.state.linkActive with
  | false => rfl
  | true =>
      rcases hr.active hset with h | h | h
      · exact absurd h htask.1
      · exact absurd h htask.2.1
      · exact absurd h htask.2.2

theorem pending_length_le (r : UartRun) : r.pending.length ≤ 1 := by
  unfold UartRun.pending
  split <;> simp

/-- The mailbox is empty once a pop finds nothing. -/
theorem Gated.held_of_empty (hr : Gated r)
    (hempty : r.state.net.upload.contents = []) : r.held.length ≤ 1 := by
  have hqueued := hr.queued_eq
  rw [hempty, List.map_eq_nil_iff] at hqueued
  rw [UartRun.held, hqueued]
  exact pending_length_le r

theorem tail_of_pop (hr : Gated r) {upload : PacketQueue} {packet : Packet}
    (hpop : r.state.net.upload.tryPop = (upload, some packet)) :
    r.queued.tail.map Prod.snd = upload.contents := by
  have hitem : r.state.net.upload.tryPop.2 = some packet := by rw [hpop]
  have hcontents := OverwriteQueue.contents_of_tryPop hitem
  rw [hpop] at hcontents
  rw [List.map_tail, hr.queued_eq, hcontents, List.tail_cons]

theorem drain_cases {s u : UartBridge} (hstep : s.netStep .drain = some u) :
    s.task = .drain ∧ ∃ upload packet, s.net.upload.tryPop = (upload, some packet) ∧
      u = { s with net := { s.net with upload := upload } } := by
  simp only [UartBridge.netStep] at hstep
  split at hstep
  · next upload packet htask hpop =>
    cases hstep
    exact ⟨htask, upload, packet, hpop, rfl⟩
  · cases hstep

theorem pop_cases {s u : UartBridge} (hstep : s.netStep (.send .pop) = some u) :
    s.task = .session ∧ ∃ upload packet net,
      s.net.upload.tryPop = (upload, some packet) ∧ net.upload = upload ∧
      u = { s with net := net } := by
  obtain ⟨htask, hnext⟩ := Option.ite_none_right_eq_some.mp hstep
  obtain ⟨net, hnet, rfl⟩ := Option.map_eq_some_iff.mp hnext
  simp only [ForwardTcp.step] at hnet
  obtain ⟨-, hsend⟩ := Option.ite_none_left_eq_some.mp hnet
  simp only [ForwardTcp.sendStep] at hsend
  split at hsend
  · next upload packet hstate hpop =>
    cases hsend
    exact ⟨htask, upload, packet, _, hpop, rfl, rfl⟩
  · cases hsend

/-- A popped packet is no longer held. -/
theorem held_of_pop (hqueued : t.queued = r.queued.tail) (hpending : t.pending = r.pending) :
    (r.queued.take 1).map Prod.fst ++ t.held = r.held := by
  rw [UartRun.held, hqueued, hpending, UartRun.held, ← List.append_assoc,
    ← List.map_append, ← List.drop_one, List.take_append_drop]

theorem Gated.afterDrain (hr : Gated r) (hstep : r.step (.net .drain) = some t) :
    Gated t := by
  obtain ⟨state, hstate, ht⟩ := Option.map_eq_some_iff.mp hstep
  obtain ⟨htask, upload, packet, hpop, rfl⟩ := drain_cases hstate
  have hoff := hr.inactive (by simp [htask])
  have hheld : (r.queued.take 1).map Prod.fst ++ t.held = r.held :=
    held_of_pop (by rw [← ht]; rfl) (by rw [← ht]; rfl)
  subst ht
  constructor
  · exact tail_of_pop hr hpop
  · intro tag htag
    refine hr.tags_le tag ?_
    rw [← hheld]
    exact List.mem_append_right _ htag
  · simp [hoff]
  · simp [htask]
  · simp [htask]
  · simp [hoff]

theorem Gated.afterPop (hr : Gated r) (hstep : r.step (.net (.send .pop)) = some t) :
    Gated t := by
  obtain ⟨state, hstate, ht⟩ := Option.map_eq_some_iff.mp hstep
  obtain ⟨htask, upload, packet, net, hpop, rfl, rfl⟩ := pop_cases hstate
  have hset := hr.session_active htask
  have hheld : (r.queued.take 1).map Prod.fst ++ t.held = r.held :=
    held_of_pop (by rw [← ht]; rfl) (by rw [← ht]; rfl)
  subst ht
  constructor
  · exact tail_of_pop hr hpop
  · intro tag htag
    refine hr.tags_le tag ?_
    rw [← hheld]
    exact List.mem_append_right _ htag
  · exact hr.active
  · exact hr.session_active
  · simp [htask]
  · intro _
    have hfresh := hr.fresh hset
    rw [← hheld, ← List.append_assoc, ← List.map_append] at hfresh
    exact hfresh

theorem Gated.afterActivate (hr : Gated r) (hstep : r.step (.net .activate) = some t) :
    Gated t := by
  obtain ⟨state, hstate, rfl⟩ := Option.map_eq_some_iff.mp hstep
  obtain ⟨htask, hnext⟩ := Option.ite_none_right_eq_some.mp hstate
  cases hnext
  constructor
  · exact hr.queued_eq
  · exact fun tag htag => (hr.tags_le tag htag).trans (Nat.le_succ _)
  · exact fun _ => .inl rfl
  · exact fun _ => rfl
  · simp
  · intro _
    refine ⟨r.held, [], by simp [UartRun.poppedBy]; rfl, ?_, ?_, by simp⟩
    · exact hr.drained (.inr (.inr htask))
    · exact fun tag htag => Nat.lt_succ_of_le (hr.tags_le tag htag)

/-- The loops of the session other than the pop keep the upload mailbox. -/
theorem send_frame {s u : UartBridge} {e : SendEvent} (hne : e ≠ .pop)
    (hstep : s.netStep (.send e) = some u) :
    u.net.upload = s.net.upload ∧ u.task = s.task ∧ u.linkActive = s.linkActive ∧
      u.receiver = s.receiver := by
  obtain ⟨-, hnext⟩ := Option.ite_none_right_eq_some.mp hstep
  obtain ⟨net, hnet, rfl⟩ := Option.map_eq_some_iff.mp hnext
  refine ⟨?_, rfl, rfl, rfl⟩
  simp only [ForwardTcp.step] at hnet
  obtain ⟨-, hsend⟩ := Option.ite_none_left_eq_some.mp hnet
  cases e with
  | pop => exact absurd rfl hne
  | write n =>
      simp only [ForwardTcp.sendStep] at hsend
      split at hsend
      · obtain ⟨-, hsome⟩ := Option.ite_none_right_eq_some.mp hsend
        cases hsome
        rfl
      · cases hsend
  | fault =>
      simp only [ForwardTcp.sendStep] at hsend
      split at hsend <;> cases hsend
      rfl

theorem receive_frame {s u : UartBridge} {e : ReceiveEvent}
    (hstep : s.netStep (.receive e) = some u) :
    u.net.upload = s.net.upload ∧ u.task = s.task ∧ u.linkActive = s.linkActive ∧
      u.receiver = s.receiver := by
  obtain ⟨-, hnext⟩ := Option.ite_none_right_eq_some.mp hstep
  obtain ⟨net, hnet, rfl⟩ := Option.map_eq_some_iff.mp hnext
  simp only [ForwardTcp.step] at hnet
  obtain ⟨-, hreceive⟩ := Option.ite_none_left_eq_some.mp hnet
  exact ⟨(receiveStep_frame hreceive).1, rfl, rfl, rfl⟩

/-- Where the session moves data other than by the pop. -/
theorem Gated.afterLoop (hr : Gated r) {e : NetEvent} (hstep : r.step (.net e) = some t)
    (hqueued : r.queuedBy (.net e) = r.queued) (hpopped : r.poppedBy (.net e) = r.popped)
    (hne : e ≠ .activate)
    (hframe : ∀ u, r.state.netStep e = some u → u.net.upload = r.state.net.upload ∧
      u.task = r.state.task ∧ u.linkActive = r.state.linkActive ∧
      u.receiver = r.state.receiver) : Gated t := by
  obtain ⟨state, hstate, rfl⟩ := Option.map_eq_some_iff.mp hstep
  obtain ⟨hupload, htask, hactive, hreceiver⟩ := hframe state hstate
  refine hr.quietly ?_ hqueued hpopped ?_ (congrArg _ hupload) htask hactive
  · cases e <;> first | rfl | exact absurd rfl hne
  · simp only [UartRun.pending, hreceiver]

theorem Gated.afterNet (hr : Gated r) {e : NetEvent} (hstep : r.step (.net e) = some t) :
    Gated t := by
  cases e with
  | drain => exact hr.afterDrain hstep
  | activate => exact hr.afterActivate hstep
  | send e =>
      cases e with
      | pop => exact hr.afterPop hstep
      | write n => exact hr.afterLoop hstep rfl rfl nofun fun u => send_frame nofun
      | fault => exact hr.afterLoop hstep rfl rfl nofun fun u => send_frame nofun
  | receive e => exact hr.afterLoop hstep rfl rfl nofun fun u => receive_frame
  | begin =>
      obtain ⟨state, hstate, rfl⟩ := Option.map_eq_some_iff.mp hstep
      obtain ⟨htask, hnext⟩ := Option.ite_none_right_eq_some.mp hstate
      cases hnext
      have hoff := hr.inactive (by simp [htask])
      refine hr.afterMove rfl rfl rfl rfl rfl (by simp [hoff]) ?_ ?_
      · simp only
        split <;> simp
      · simp only
        split <;> simp
  | delayed =>
      obtain ⟨state, hstate, rfl⟩ := Option.map_eq_some_iff.mp hstep
      obtain ⟨htask, hnext⟩ := Option.ite_none_right_eq_some.mp hstate
      cases hnext
      have hoff := hr.inactive (by simp [htask])
      exact hr.afterMove rfl rfl rfl rfl rfl (by simp [hoff]) (by simp) (by simp)
  | clear =>
      obtain ⟨state, hstate, rfl⟩ := Option.map_eq_some_iff.mp hstep
      obtain ⟨htask, hnext⟩ := Option.ite_none_right_eq_some.mp hstate
      cases hnext
      exact hr.afterMove rfl rfl rfl rfl rfl (by simp) (by simp) (by simp)
  | drained =>
      obtain ⟨state, hstate, rfl⟩ := Option.map_eq_some_iff.mp hstep
      simp only [UartBridge.step, UartBridge.netStep] at hstate
      split at hstate
      · next upload htask hpop =>
        cases hstate
        have hoff := hr.inactive (by simp [htask])
        have hempty : r.state.net.upload.contents = [] :=
          OverwriteQueue.tryPop_eq_none.mp (by rw [hpop])
        exact hr.afterMove rfl rfl rfl rfl rfl (by simp [hoff]) (by simp)
          fun _ => hr.held_of_empty hempty
      · cases hstate
  | connect ok =>
      obtain ⟨state, hstate, rfl⟩ := Option.map_eq_some_iff.mp hstep
      obtain ⟨htask, hnext⟩ := Option.ite_none_right_eq_some.mp hstate
      cases hnext
      have hoff := hr.inactive (by simp [htask])
      refine hr.afterMove rfl rfl rfl rfl rfl (by simp [hoff]) ?_
        fun _ => hr.drained (.inl htask)
      simp only
      split <;> simp
  | handshake ok =>
      obtain ⟨state, hstate, rfl⟩ := Option.map_eq_some_iff.mp hstep
      obtain ⟨htask, hnext⟩ := Option.ite_none_right_eq_some.mp hstate
      cases hnext
      have hoff := hr.inactive (by simp [htask])
      refine hr.afterMove rfl rfl rfl rfl rfl (by simp [hoff]) ?_
        fun _ => hr.drained (.inr (.inl htask))
      simp only
      split <;> simp
  | returned =>
      obtain ⟨state, hstate, rfl⟩ := Option.map_eq_some_iff.mp hstep
      obtain ⟨⟨htask, -⟩, hnext⟩ := Option.ite_none_right_eq_some.mp hstate
      cases hnext
      exact hr.afterMove rfl rfl rfl rfl rfl (fun hset => ⟨hset, .inl rfl⟩) (by simp)
        (by simp)
  | deactivate =>
      obtain ⟨state, hstate, rfl⟩ := Option.map_eq_some_iff.mp hstep
      obtain ⟨htask, hnext⟩ := Option.ite_none_right_eq_some.mp hstate
      cases hnext
      exact hr.afterMove rfl rfl rfl rfl rfl (by simp) (by simp) (by simp)
  | resume =>
      obtain ⟨state, hstate, rfl⟩ := Option.map_eq_some_iff.mp hstep
      obtain ⟨htask, hnext⟩ := Option.ite_none_right_eq_some.mp hstate
      cases hnext
      have hoff := hr.inactive (by simp [htask])
      exact hr.afterMove rfl rfl rfl rfl rfl (by simp [hoff]) (by simp) (by simp)
  | drop =>
      obtain ⟨state, hstate, rfl⟩ := Option.map_eq_some_iff.mp hstep
      obtain ⟨-, hnext⟩ := Option.ite_none_right_eq_some.mp hstate
      cases hnext
      exact hr.afterMove rfl rfl rfl rfl rfl (fun hset => ⟨hset, .inr rfl⟩) (by simp)
        (by simp)
  | clearDropped =>
      obtain ⟨state, hstate, rfl⟩ := Option.map_eq_some_iff.mp hstep
      obtain ⟨htask, hnext⟩ := Option.ite_none_right_eq_some.mp hstate
      cases hnext
      exact hr.afterMove rfl rfl rfl rfl rfl (by simp) (by simp) (by simp)

theorem Gated.afterStep (hr : Gated r) {e : CoreEvent} (hstep : r.step e = some t) :
    Gated t := by
  cases e with
  | net e => exact hr.afterNet hstep
  | receiver e => exact hr.afterReceiver hstep
  | transmitter e => exact hr.afterTransmitter hstep

end Steps

/-- Whatever the two cores do between their steps, and wherever `run` is
dropped: the flag is set only behind a handshake and cleared before the next
one, and of what a session has popped and what waits for it at most the first
packet was let pass before the session began. -/
theorem uart_sessions_are_fresh (config : BridgeConfig) (client : Bool)
    (upload download : PacketQueue) (events : List CoreEvent) (r : UartRun)
    (hreach : Runs.Reaches UartRun.step (UartRun.boot config client upload download)
      events r) :
    (r.state.linkActive = true →
      r.state.task = .session ∨ r.state.task = .sessionOver ∨ r.state.task = .dropped) ∧
    r.queued.map Prod.snd = r.state.net.upload.contents ∧
    (r.state.task = .session → r.state.linkActive = true ∧
      AtMostOneStale r.session ((r.popped ++ r.queued).map Prod.fst)) := by
  have hr : Gated r :=
    hreach.invariant (fun _ _ _ h hstep => h.afterStep hstep)
      (gated_boot config client upload download)
  refine ⟨hr.active, hr.queued_eq, fun htask => ?_⟩
  have hset := hr.session_active htask
  have hfresh := hr.fresh hset
  rw [UartRun.held, ← List.append_assoc, ← List.map_append] at hfresh
  exact ⟨hset, hfresh.of_append⟩

/-- Core 1 reads an empty packet and finds the flag set. -/
def passGate : List CoreEvent :=
  .receiver .call ::
    [0xA5, 0x5A, 0, 0].map (fun byte => .receiver (.read [byte])) ++ [.receiver .gate]

/-- A server accepts a connection. -/
def openSession : List CoreEvent :=
  [.begin, .clear, .drained, .connect true, .handshake true, .activate].map .net

/-- The address changes between the check of the flag and the push, and the
packet of the first session is the first one of the second. -/
def lateEvents : List CoreEvent :=
  openSession ++ passGate ++ [.net .drop, .net .clearDropped] ++ openSession ++
    [.receiver .admitUart]

theorem uart_sessions_are_fresh_late :
    ∃ r : UartRun, r.session = 2 ∧ r.queued.map Prod.fst = [1] ∧
      r.state.linkActive = true ∧
      AtMostOneStale r.session ((r.popped ++ r.queued).map Prod.fst) := by
  have hreach : (lateEvents.foldlM UartRun.step
        (UartRun.boot BridgeConfig.spiServer false UartMailbox.emptyQueue
          UartMailbox.emptyQueue)).any
      (fun r : UartRun => r.state.task == .session && r.session == 2 &&
        r.queued.map Prod.fst == [1]) = true := by
    decide +kernel
  obtain ⟨r, hr, hstate⟩ := (Option.any_eq_true _ _).mp hreach
  simp only [Bool.and_eq_true, beq_iff_eq] at hstate
  obtain ⟨⟨htask, hsession⟩, htags⟩ := hstate
  obtain ⟨-, -, hfresh⟩ := uart_sessions_are_fresh _ _ _ _ _ r hr
  exact ⟨r, hsession, htags, hfresh htask⟩

end Uart
end PicoFi
