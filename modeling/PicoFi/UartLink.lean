import PicoFi.Reconnections
import PicoFi.UartLine

/-!
# Data from one UART to another

Two bridges with a UART each, joined by one connection after another.  A run
of one of them keeps a log of each session: the packets popped from the upload
mailbox and the bytes the socket has accepted, the bytes taken from the socket
and the packets pushed to the download mailbox.  Whatever is refused, drained
or lost with a connection, the data one host reads is in the order in which
the other host sent it, and nothing of it is read twice.
-/

namespace PicoFi
namespace Uart

open BridgeFrame Buffer LinkFrame Mailbox PicoFi.Stream UartMailbox UartValidator

/-! ## Runs with a log of each session -/

structure SessionLog where
  /-- The number of the session at the other end. -/
  peer : ℕ
  popped : List Packet
  sent : List UInt8
  taken : List UInt8
  pushed : List Packet

namespace SessionLog

def begin (peer : ℕ) : SessionLog := ⟨peer, [], [], [], []⟩

def afterSend (log : SessionLog) (s : ForwardTcp) (e : SendEvent) : SessionLog :=
  { log with
    popped := log.popped ++ ForwardRun.poppedBy s (.send e)
    sent := log.sent ++ ForwardRun.acceptedBy s (.send e) }

def afterReceive (log : SessionLog) (s : ForwardTcp) (e : ReceiveEvent) : SessionLog :=
  { log with
    taken := log.taken ++ ForwardRun.consumedBy (.receive e)
    pushed := log.pushed ++ (ForwardRun.queuedBy s (.receive e)).map Prod.snd }

end SessionLog

structure EndRun where
  line : LineRun
  /-- What the upload mailbox has taken. -/
  admitted : List Packet
  /-- The sessions so far, before the last one; the first is none. -/
  past : List SessionLog
  last : SessionLog

namespace EndRun

def boot (config : BridgeConfig) (client : Bool) : EndRun :=
  ⟨LineRun.boot config client, [], [], SessionLog.begin 0⟩

def logs (r : EndRun) : List SessionLog := r.past ++ [r.last]

def admittedBy (s : UartBridge) (e : CoreEvent) : List Packet :=
  match e, s.receiver with
  | .receiver .admitUart, .admitUart packet =>
      if (s.net.upload.tryPushRef packet).2 then [packet] else []
  | _, _ => []

/-- A session that begins is joined to the given session of the other end. -/
def step (r : EndRun) (e : CoreEvent × ℕ) : Option EndRun :=
  (r.line.step e.1).map fun line =>
    { line := line
      admitted := r.admitted ++ admittedBy r.line.state e.1
      past := if let .net .activate := e.1 then r.past ++ [r.last] else r.past
      last :=
        match e.1 with
        | .net .activate => SessionLog.begin e.2
        | .net (.send e) => r.last.afterSend r.line.state.net e
        | .net (.receive e) => r.last.afterReceive r.line.state.net e
        | _ => r.last }

/-- Each session as a connection. -/
def sent (r : EndRun) : List (List UInt8) := r.logs.map SessionLog.sent

def taken (r : EndRun) : List (ℕ × List UInt8) :=
  r.logs.map fun log => (log.peer, log.taken)

end EndRun

theorem sent_grown {r t : EndRun} {e : CoreEvent × ℕ} (hstep : r.step e = some t) :
    Wired.Grown r.sent t.sent := by
  obtain ⟨line, -, rfl⟩ := Option.map_eq_some_iff.mp hstep
  have hlast : ∀ {next : SessionLog}, r.last.sent <+: next.sent →
      Wired.Grown r.sent ((r.past ++ [next]).map SessionLog.sent) := by
    intro next hnext
    rw [EndRun.sent, EndRun.logs, List.map_append, List.map_append]
    exact Wired.grown_last _ hnext
  obtain ⟨event, peer⟩ := e
  cases event with
  | receiver e => exact hlast List.prefix_rfl
  | transmitter e => exact hlast List.prefix_rfl
  | net e =>
      cases e with
      | activate =>
          rw [EndRun.sent, EndRun.logs, List.map_append]
          simp only [EndRun.sent, EndRun.logs, List.map_append, List.map_cons,
            List.map_nil, List.append_assoc, List.cons_append, List.nil_append]
          exact Wired.grown_concat _
      | send e => exact hlast (List.prefix_append _ _)
      | receive e => exact hlast List.prefix_rfl
      | _ => exact hlast List.prefix_rfl

def endpoint : Wired.Endpoint EndRun (CoreEvent × ℕ) UInt8 where
  step := EndRun.step
  sent := EndRun.sent
  taken := EndRun.taken
  sent_mono := sent_grown

/-! ## One end -/

/-- The payload of what is no command. -/
def dataOf : FrameResult → Option (List UInt8)
  | .ok kind payload => if kind = reqCommandMagic then none else some payload
  | .err => none

/-- The data that was read and is not admitted yet. -/
def ReceiverState.unadmitted : ReceiverState → List (List UInt8)
  | .gate packet => [packet.payload]
  | .admitUart packet => [packet.payload]
  | _ => []

def payloads (packets : List Packet) : List (List UInt8) := packets.map Packet.payload

def wires (packets : List Packet) : List (List UInt8) := packets.map QueueCodec.wire

/-- What a session has sent is the beginning of the frames of what it has
popped, and what it has pushed is what it has read first. -/
structure Framed (log : SessionLog) : Prop where
  sent_prefix : log.sent <+: frames log.popped
  pushed_complete : payloads log.pushed <+: completeFrames maxPayload log.taken

/-- What a running session is about to do. -/
structure InSession (net : ForwardTcp) (log : SessionLog) : Prop where
  sending : Sending net.send log.popped log.sent
  received : UartMailbox.Received net log.taken (log.pushed ++ net.receive.waiting)

structure EndPoint (r : EndRun) : Prop where
  line : OnLine r.line
  uplink : List.Sublist (payloads r.admitted ++ r.line.state.receiver.unadmitted)
    (r.line.handled.filterMap dataOf)
  upload : List.Sublist
    (wires (r.logs.flatMap SessionLog.popped) ++ r.line.state.net.upload.contents)
    (wires r.admitted)
  downlink : (r.line.queued.filter fun entry => entry.1 == .stream).map Prod.snd =
    r.logs.flatMap SessionLog.pushed
  framed : ∀ log ∈ r.logs, Framed log
  session : r.line.state.task = .session → InSession r.line.state.net r.last

theorem Sending.sent_prefix {send : SendState} {popped : List Packet} {sent : List UInt8}
    (hsending : Sending send popped sent) : sent <+: frames popped := by
  obtain ⟨done, current, part, rfl, -, rfl, hpart⟩ := hsending.inOrder
  rw [frames_append]
  exact (List.prefix_append_right_inj _).mpr hpart

theorem InSession.framed {net : ForwardTcp} {log : SessionLog}
    (hlog : InSession net log) : Framed log where
  sent_prefix := Sending.sent_prefix hlog.sending
  pushed_complete := by
    rw [hlog.received.frames_eq, List.map_append]
    exact List.prefix_append _ _

theorem InSession.ofBegin (upload download : PacketQueue) (peer : ℕ) :
    InSession (ForwardTcp.start upload download) (SessionLog.begin peer) where
  sending := .between []
  received := ⟨rfl, fun _ => ⟨Partial.empty, HasRead.ofStart List.length_replicate, rfl⟩⟩

/-- What other loops do to the mailboxes does not concern the session. -/
theorem InSession.ofSame {net next : ForwardTcp} {log : SessionLog}
    (hlog : InSession net log) (hsend : next.send = net.send)
    (hreceive : next.receive = net.receive) (hbufs : next.bufs = net.bufs)
    (hended : next.ended = net.ended) : InSession next log where
  sending := hsend ▸ hlog.sending
  received := by
    rw [hreceive]
    exact hlog.received.ofSame hreceive hbufs (fun h => hended ▸ h)

section Steps

variable {r t : EndRun}

/-- A step outside the session. -/
theorem EndPoint.outside (hr : EndPoint r) (hline : OnLine t.line) (hlogs : t.logs = r.logs)
    (hlast : t.last = r.last)
    (huplink : List.Sublist (payloads t.admitted ++ t.line.state.receiver.unadmitted)
      (t.line.handled.filterMap dataOf))
    (hupload : List.Sublist
      (wires (r.logs.flatMap SessionLog.popped) ++ t.line.state.net.upload.contents)
      (wires t.admitted))
    (hdownlink : (t.line.queued.filter fun entry => entry.1 == .stream) =
      r.line.queued.filter fun entry => entry.1 == .stream)
    (hsession : t.line.state.task = .session → r.line.state.task = .session ∧
      t.line.state.net.send = r.line.state.net.send ∧
      t.line.state.net.receive = r.line.state.net.receive ∧
      t.line.state.net.bufs = r.line.state.net.bufs ∧
      t.line.state.net.ended = r.line.state.net.ended) : EndPoint t where
  line := hline
  uplink := huplink
  upload := hlogs ▸ hupload
  downlink := by rw [hdownlink, hlogs, hr.downlink]
  framed := hlogs ▸ hr.framed
  session htask := by
    obtain ⟨hrunning, hsend, hreceive, hbufs, hended⟩ := hsession htask
    rw [hlast]
    exact (hr.session hrunning).ofSame hsend hreceive hbufs hended

theorem unadmitted_of_settleRead {s u : UartBridge} {next : ReadBuffers × CallStatus}
    (hsettle : s.settleRead next = some u) :
    u.receiver.unadmitted = (LineRun.returnedBy next).filterMap dataOf := by
  obtain ⟨bufs, status⟩ := next
  cases status with
  | panicked => cases hsettle
  | awaiting request =>
      cases hsettle
      rfl
  | returned outcome =>
      cases outcome with
      | err =>
          cases hsettle
          rfl
      | ok kind len =>
          obtain ⟨packet, hpacket, rfl⟩ := Option.map_eq_some_iff.mp hsettle
          have hpayload : packet.payload = bufs.payload.take len := by
            unfold finishPacket at hpacket
            split at hpacket
            · cases hpacket
              rfl
            · cases hpacket
          by_cases hkind : kind = reqCommandMagic
          · simp [LineRun.returnedBy, ReadOutcome.result, dataOf, hkind,
              ReceiverState.unadmitted]
          · simp [LineRun.returnedBy, ReadOutcome.result, dataOf, hkind,
              ReceiverState.unadmitted, hpayload]

/-- The gate and the mailbox only leave data out. -/
theorem uplink_of_receiverStep {s u : UartBridge} {e : ReceiverEvent}
    {admitted : List (List UInt8)} {handled : List FrameResult}
    (hbefore : List.Sublist (admitted ++ s.receiver.unadmitted) (handled.filterMap dataOf))
    (hstep : s.receiverStep e = some u) :
    List.Sublist
      (admitted ++ payloads (EndRun.admittedBy s (.receiver e)) ++ u.receiver.unadmitted)
      ((handled ++ LineRun.handledBy s (.receiver e)).filterMap dataOf) := by
  have hpolled : ∀ {next : ReadBuffers × CallStatus}, s.receiver.unadmitted = [] →
      s.settleRead next = some u →
      List.Sublist (admitted ++ u.receiver.unadmitted)
        ((handled ++ LineRun.returnedBy next).filterMap dataOf) := by
    intro next hnone hsettle
    rw [hnone, List.append_nil] at hbefore
    rw [unadmitted_of_settleRead hsettle, List.filterMap_append]
    exact hbefore.append_right _
  cases hreceiver : s.receiver with
  | call =>
      cases e <;> simp only [UartBridge.receiverStep, hreceiver, reduceCtorEq] at hstep
      simpa [EndRun.admittedBy, LineRun.handledBy, payloads]
        using hpolled (by rw [hreceiver]; rfl) hstep
  | read request =>
      cases e <;> simp only [UartBridge.receiverStep, hreceiver, reduceCtorEq] at hstep
      · simpa [EndRun.admittedBy, LineRun.handledBy, payloads, hreceiver]
          using hpolled (by rw [hreceiver]; rfl) (Option.ite_none_right_eq_some.mp hstep).2
      · simpa [EndRun.admittedBy, LineRun.handledBy, payloads, hreceiver]
          using hpolled (by rw [hreceiver]; rfl) hstep
  | command packet =>
      cases e <;> simp only [UartBridge.receiverStep, hreceiver, reduceCtorEq] at hstep
      rw [hreceiver] at hbefore
      split at hstep <;> cases hstep
      all_goals
        simpa [EndRun.admittedBy, LineRun.handledBy, payloads, ReceiverState.unadmitted]
          using hbefore
  | gate packet =>
      cases e <;> simp only [UartBridge.receiverStep, hreceiver, reduceCtorEq] at hstep
      rw [hreceiver] at hbefore
      cases hstep
      cases s.linkActive with
      | true =>
          simpa [EndRun.admittedBy, LineRun.handledBy, payloads, ReceiverState.unadmitted]
            using hbefore
      | false =>
          have hdropped := (List.sublist_append_left admitted _).trans hbefore
          simpa [EndRun.admittedBy, LineRun.handledBy, payloads, ReceiverState.unadmitted]
            using hdropped
  | admitUart packet =>
      cases e <;> simp only [UartBridge.receiverStep, hreceiver, reduceCtorEq] at hstep
      rw [hreceiver] at hbefore
      rcases hpush : s.net.upload.tryPushRef packet with ⟨upload, _ | _⟩
      · simp only [hpush, Option.some.injEq] at hstep
        subst hstep
        have hdropped := (List.sublist_append_left admitted _).trans hbefore
        simpa [EndRun.admittedBy, LineRun.handledBy, payloads, ReceiverState.unadmitted,
          hreceiver, hpush] using hdropped
      · simp only [hpush, Option.some.injEq] at hstep
        subst hstep
        simpa [EndRun.admittedBy, LineRun.handledBy, payloads, ReceiverState.unadmitted,
          hreceiver, hpush] using hbefore
  | pause =>
      cases e <;> simp only [UartBridge.receiverStep, hreceiver, reduceCtorEq] at hstep
      rw [hreceiver] at hbefore
      cases hstep
      simpa [EndRun.admittedBy, LineRun.handledBy, payloads, ReceiverState.unadmitted]
        using hbefore

/-- What a step leaves to a running session. -/
def SameSession (s u : UartBridge) : Prop :=
  u.task = s.task ∧ u.net.send = s.net.send ∧ u.net.receive = s.net.receive ∧
    u.net.bufs = s.net.bufs ∧ u.net.ended = s.net.ended

theorem sameSession_of_receiverStep {s u : UartBridge} {e : ReceiverEvent}
    (hstep : s.receiverStep e = some u) :
    SameSession s u ∧ u.net.upload.contents = s.net.upload.contents ++
      wires (EndRun.admittedBy s (.receiver e)) := by
  have hpolled : ∀ {next : ReadBuffers × CallStatus}, s.settleRead next = some u →
      e ≠ .admitUart → SameSession s u ∧ u.net.upload.contents =
        s.net.upload.contents ++ wires (EndRun.admittedBy s (.receiver e)) := by
    intro next hsettle hne
    obtain ⟨hnet, htask, -⟩ := settleRead_frame hsettle
    have hnone : EndRun.admittedBy s (.receiver e) = [] := by
      cases e <;> first | rfl | exact absurd rfl hne
    rw [hnone, SameSession, hnet]
    exact ⟨⟨htask, rfl, rfl, rfl, rfl⟩, by simp [wires]⟩
  cases hreceiver : s.receiver with
  | call =>
      cases e <;> simp only [UartBridge.receiverStep, hreceiver, reduceCtorEq] at hstep
      exact hpolled hstep (by simp)
  | read request =>
      cases e <;> simp only [UartBridge.receiverStep, hreceiver, reduceCtorEq] at hstep
      · exact hpolled (Option.ite_none_right_eq_some.mp hstep).2 (by simp)
      · exact hpolled hstep (by simp)
  | command packet =>
      cases e <;> simp only [UartBridge.receiverStep, hreceiver, reduceCtorEq] at hstep
      split at hstep <;> cases hstep <;>
        exact ⟨⟨rfl, rfl, rfl, rfl, rfl⟩, by simp [EndRun.admittedBy, wires]⟩
  | gate packet =>
      cases e <;> simp only [UartBridge.receiverStep, hreceiver, reduceCtorEq] at hstep
      cases hstep
      exact ⟨⟨rfl, rfl, rfl, rfl, rfl⟩, by simp [EndRun.admittedBy, wires]⟩
  | admitUart packet =>
      cases e <;> simp only [UartBridge.receiverStep, hreceiver, reduceCtorEq] at hstep
      have hcontents := s.net.upload.contents_push packet
      rcases hpush : s.net.upload.tryPushRef packet with ⟨upload, _ | _⟩
      all_goals
        rw [hpush] at hcontents
        simp only [hpush, Option.some.injEq] at hstep
        subst hstep
        refine ⟨⟨rfl, rfl, rfl, rfl, rfl⟩, ?_⟩
        simpa [EndRun.admittedBy, hreceiver, hpush, wires] using hcontents
  | pause =>
      cases e <;> simp only [UartBridge.receiverStep, hreceiver, reduceCtorEq] at hstep
      cases hstep
      exact ⟨⟨rfl, rfl, rfl, rfl, rfl⟩, by simp [EndRun.admittedBy, wires]⟩

theorem EndPoint.afterReceiver (hr : EndPoint r) {e : ReceiverEvent} {peer : ℕ}
    (hstep : r.step (.receiver e, peer) = some t) : EndPoint t := by
  obtain ⟨line, hline, rfl⟩ := Option.map_eq_some_iff.mp hstep
  have hon := hr.line.afterStep hline
  obtain ⟨state, hstate, rfl⟩ := Option.map_eq_some_iff.mp hline
  obtain ⟨⟨htask, hsend, hreceive, hbufs, hended⟩, hupload⟩ :=
    sameSession_of_receiverStep hstate
  refine hr.outside hon rfl rfl ?_ ?_ ?_ ?_
  · simpa [payloads] using uplink_of_receiverStep hr.uplink hstate
  · have hbefore := hr.upload.append_right
      (wires (EndRun.admittedBy r.line.state (.receiver e)))
    rw [hupload, ← List.append_assoc]
    simpa [wires] using hbefore
  · have hnone : (LineRun.queuedBy r.line.state (.receiver e)).filter
        (fun entry => entry.1 == .stream) = [] := by
      rw [List.filter_eq_nil_iff]
      intro entry hmem
      obtain ⟨reply, -, rfl⟩ := List.mem_map.mp hmem
      simp
    simp [List.filter_append, hnone]
  · exact fun hrunning => ⟨htask ▸ hrunning, hsend, hreceive, hbufs, hended⟩

theorem EndPoint.afterTransmitter (hr : EndPoint r) {e : TransmitterEvent} {peer : ℕ}
    (hstep : r.step (.transmitter e, peer) = some t) : EndPoint t := by
  obtain ⟨line, hline, rfl⟩ := Option.map_eq_some_iff.mp hstep
  have hon := hr.line.afterStep hline
  obtain ⟨state, hstate, rfl⟩ := Option.map_eq_some_iff.mp hline
  have hsame : SameSession r.line.state state ∧
      state.net.upload = r.line.state.net.upload ∧
      state.receiver = r.line.state.receiver := by
    simp only [UartBridge.step] at hstate
    unfold UartBridge.transmitterStep at hstate
    repeat' split at hstate
    all_goals first
      | cases hstate
        exact ⟨⟨rfl, rfl, rfl, rfl, rfl⟩, rfl, rfl⟩
      | cases hstate
  obtain ⟨⟨htask, hsend, hreceive, hbufs, hended⟩, hupload, hreceiver⟩ := hsame
  refine hr.outside hon rfl rfl ?_ ?_ ?_ ?_
  · simpa [EndRun.admittedBy, LineRun.handledBy, hreceiver] using hr.uplink
  · simpa [EndRun.admittedBy, hupload] using hr.upload
  · simp [LineRun.queuedBy, LineRun.answeredBy]
  · exact fun hrunning => ⟨htask ▸ hrunning, hsend, hreceive, hbufs, hended⟩

/-- The events of core 0 that move no session. -/
def Apart (e : NetEvent) : Prop :=
  e ≠ .activate ∧ (∀ e', e ≠ .send e') ∧ ∀ e', e ≠ .receive e'

theorem apart_of_netStep {s u : UartBridge} {e : NetEvent} (hapart : Apart e)
    (hstep : s.netStep e = some u) :
    u.task ≠ .session ∧ u.receiver = s.receiver ∧
      List.Sublist u.net.upload.contents s.net.upload.contents := by
  obtain ⟨hactivate, hsend, hreceive⟩ := hapart
  cases e with
  | activate => exact absurd rfl hactivate
  | send e => exact absurd rfl (hsend e)
  | receive e => exact absurd rfl (hreceive e)
  | drain =>
      obtain ⟨htask, upload, packet, hpop, rfl⟩ := drain_cases hstep
      have hitem : s.net.upload.tryPop.2 = some packet := by rw [hpop]
      have hcontents := OverwriteQueue.contents_of_tryPop hitem
      rw [hpop] at hcontents
      refine ⟨by simp [htask], rfl, ?_⟩
      rw [hcontents]
      exact List.sublist_cons_self _ _
  | drained =>
      simp only [UartBridge.netStep] at hstep
      split at hstep <;> cases hstep
      exact ⟨by simp, rfl, List.Sublist.refl _⟩
  | begin =>
      obtain ⟨-, hnext⟩ := Option.ite_none_right_eq_some.mp hstep
      cases hnext
      refine ⟨?_, rfl, List.Sublist.refl _⟩
      dsimp only
      split <;> simp
  | connect ok =>
      obtain ⟨-, hnext⟩ := Option.ite_none_right_eq_some.mp hstep
      cases hnext
      cases ok <;> exact ⟨by simp, rfl, List.Sublist.refl _⟩
  | handshake ok =>
      obtain ⟨-, hnext⟩ := Option.ite_none_right_eq_some.mp hstep
      cases hnext
      cases ok <;> exact ⟨by simp, rfl, List.Sublist.refl _⟩
  | _ =>
      obtain ⟨-, hnext⟩ := Option.ite_none_right_eq_some.mp hstep
      cases hnext
      exact ⟨by simp, rfl, List.Sublist.refl _⟩

theorem EndPoint.afterApart (hr : EndPoint r) {e : NetEvent} {peer : ℕ}
    (hapart : Apart e) (hstep : r.step (.net e, peer) = some t) : EndPoint t := by
  obtain ⟨line, hline, rfl⟩ := Option.map_eq_some_iff.mp hstep
  have hon := hr.line.afterStep hline
  obtain ⟨state, hstate, rfl⟩ := Option.map_eq_some_iff.mp hline
  obtain ⟨htask, hreceiver, hupload⟩ := apart_of_netStep hapart hstate
  obtain ⟨hactivate, hsend, hreceive⟩ := hapart
  have hnone : LineRun.queuedBy r.line.state (.net e) = [] := by
    cases e <;> first | rfl | exact absurd rfl (hreceive _)
  refine hr.outside hon ?_ ?_ ?_ ?_ ?_ fun hrunning => absurd hrunning htask
  · cases e <;> first
      | rfl
      | exact absurd rfl hactivate
      | exact absurd rfl (hsend _)
      | exact absurd rfl (hreceive _)
  · cases e <;> first
      | rfl
      | exact absurd rfl hactivate
      | exact absurd rfl (hsend _)
      | exact absurd rfl (hreceive _)
  · simpa [EndRun.admittedBy, LineRun.handledBy, hreceiver] using hr.uplink
  · have hsame := (hupload.append_left
      (wires (r.logs.flatMap SessionLog.popped))).trans hr.upload
    simpa [EndRun.admittedBy] using hsame
  · simp [hnone]

/-- A session begins with an empty log. -/
theorem EndPoint.afterActivate (hr : EndPoint r) {peer : ℕ}
    (hstep : r.step (.net .activate, peer) = some t) : EndPoint t := by
  obtain ⟨line, hline, rfl⟩ := Option.map_eq_some_iff.mp hstep
  have hon := hr.line.afterStep hline
  obtain ⟨state, hstate, rfl⟩ := Option.map_eq_some_iff.mp hline
  obtain ⟨-, hnext⟩ := Option.ite_none_right_eq_some.mp hstate
  cases hnext
  have hbegin : InSession (ForwardTcp.start r.line.state.net.upload
      r.line.state.net.download) (SessionLog.begin peer) := .ofBegin _ _ peer
  constructor
  · exact hon
  · simpa [EndRun.admittedBy, LineRun.handledBy] using hr.uplink
  · simpa [EndRun.logs, EndRun.admittedBy, SessionLog.begin, ForwardTcp.start]
      using hr.upload
  · simpa [EndRun.logs, LineRun.queuedBy, LineRun.answeredBy, SessionLog.begin]
      using hr.downlink
  · intro log hlog
    rcases List.mem_append.mp hlog with hold | hnew
    · exact hr.framed log hold
    · obtain rfl := List.mem_singleton.mp hnew
      exact hbegin.framed
  · exact fun _ => hbegin

/-- A step of the running session. -/
theorem EndPoint.inside (hr : EndPoint r) (pushed : List (Producer × Packet))
    (hline : OnLine t.line) (hpast : t.past = r.past)
    (hadmitted : t.admitted = r.admitted) (hhandled : t.line.handled = r.line.handled)
    (hreceiver : t.line.state.receiver = r.line.state.receiver)
    (hupload : wires t.last.popped ++ t.line.state.net.upload.contents =
      wires r.last.popped ++ r.line.state.net.upload.contents)
    (hqueued : t.line.queued = r.line.queued ++ pushed)
    (hstream : ∀ entry ∈ pushed, entry.1 = .stream)
    (hpushed : t.last.pushed = r.last.pushed ++ pushed.map Prod.snd)
    (hsession : InSession t.line.state.net t.last) : EndPoint t where
  line := hline
  uplink := by
    rw [hadmitted, hhandled, hreceiver]
    exact hr.uplink
  upload := by
    have hbefore := hr.upload
    simp only [EndRun.logs, wires, List.flatMap_append, List.flatMap_singleton,
      List.map_append, List.append_assoc] at hbefore hupload ⊢
    rw [hpast, hadmitted, hupload]
    exact hbefore
  downlink := by
    have hall : (pushed.filter fun entry => entry.1 == .stream) = pushed := by
      rw [List.filter_eq_self]
      exact fun entry h => beq_iff_eq.mpr (hstream entry h)
    have hbefore := hr.downlink
    simp only [EndRun.logs, List.flatMap_append, List.flatMap_singleton] at hbefore ⊢
    rw [hqueued, List.filter_append, hall, List.map_append, hbefore, hpast, hpushed,
      List.append_assoc]
  framed := by
    intro log hlog
    rw [EndRun.logs, hpast] at hlog
    rcases List.mem_append.mp hlog with hold | hnew
    · exact hr.framed log (List.mem_append_left _ hold)
    · obtain rfl := List.mem_singleton.mp hnew
      exact hsession.framed
  session := fun _ => hsession

theorem EndPoint.afterSend (hr : EndPoint r) {e : SendEvent} {peer : ℕ}
    (hstep : r.step (.net (.send e), peer) = some t) : EndPoint t := by
  obtain ⟨line, hline, rfl⟩ := Option.map_eq_some_iff.mp hstep
  have hon := hr.line.afterStep hline
  obtain ⟨state, hstate, rfl⟩ := Option.map_eq_some_iff.mp hline
  obtain ⟨htask, hnext⟩ := Option.ite_none_right_eq_some.mp hstate
  obtain ⟨net, hnet, rfl⟩ := Option.map_eq_some_iff.mp hnext
  simp only [ForwardTcp.step] at hnet
  obtain ⟨-, hsend⟩ := Option.ite_none_left_eq_some.mp hnet
  have hsession := hr.session htask
  obtain ⟨hsending, hupload⟩ := hsession.sending.afterStep hsend
  obtain ⟨-, hreceive, hbufs, hended⟩ := sendStep_frame hsend
  refine hr.inside [] hon rfl (by simp [EndRun.admittedBy]) (by simp [LineRun.handledBy])
    rfl ?_ (by simp [LineRun.queuedBy, LineRun.answeredBy]) (by simp)
    (by simp [SessionLog.afterSend]) ⟨hsending, ?_⟩
  · simp only [SessionLog.afterSend, wires, List.map_append, List.append_assoc]
    rw [hupload]
  · have hsame := hsession.received.ofSame hreceive hbufs hended
    simpa [SessionLog.afterSend, hreceive] using hsame

theorem EndPoint.afterReceive (hr : EndPoint r) {e : ReceiveEvent} {peer : ℕ}
    (hstep : r.step (.net (.receive e), peer) = some t) : EndPoint t := by
  obtain ⟨line, hline, rfl⟩ := Option.map_eq_some_iff.mp hstep
  have hon := hr.line.afterStep hline
  obtain ⟨state, hstate, rfl⟩ := Option.map_eq_some_iff.mp hline
  obtain ⟨htask, hnext⟩ := Option.ite_none_right_eq_some.mp hstate
  obtain ⟨net, hnet, rfl⟩ := Option.map_eq_some_iff.mp hnext
  simp only [ForwardTcp.step] at hnet
  obtain ⟨hended, hreceive⟩ := Option.ite_none_left_eq_some.mp hnet
  have hsession := hr.session htask
  have hreceived := hsession.received.afterStep (Bool.eq_false_of_not_eq_true hended)
    hreceive
  obtain ⟨hupload, hsend, -⟩ := receiveStep_frame hreceive
  have hstream : ∀ entry ∈ ForwardRun.queuedBy r.line.state.net (.receive e),
      entry.1 = .stream := fun entry hmem => (mem_queuedBy_receive hmem).1
  have hall : (ForwardRun.queuedBy r.line.state.net (.receive e)).filter
      (fun entry => entry.1 == .stream) =
        ForwardRun.queuedBy r.line.state.net (.receive e) := by
    rw [List.filter_eq_self]
    exact fun entry h => beq_iff_eq.mpr (hstream entry h)
  refine hr.inside _ hon rfl (by simp [EndRun.admittedBy]) (by simp [LineRun.handledBy])
    rfl ?_ rfl hstream rfl ⟨?_, ?_⟩
  · simp [SessionLog.afterReceive, hupload]
  · simpa [SessionLog.afterReceive, hsend] using hsession.sending
  · rw [streamBy, hall] at hreceived
    exact hreceived

theorem EndPoint.afterStep (hr : EndPoint r) {e : CoreEvent × ℕ}
    (hstep : r.step e = some t) : EndPoint t := by
  obtain ⟨event, peer⟩ := e
  cases event with
  | receiver e => exact hr.afterReceiver hstep
  | transmitter e => exact hr.afterTransmitter hstep
  | net e =>
      cases e with
      | activate => exact hr.afterActivate hstep
      | send e => exact hr.afterSend hstep
      | receive e => exact hr.afterReceive hstep
      | _ => exact hr.afterApart (by exact ⟨nofun, nofun, nofun⟩) hstep

end Steps

/-! ## Both ends -/

/-- A byte of data comes from the UART and goes to the socket. -/
def upload (byte : UInt8) : List CoreEvent :=
  .receiver .call ::
    [0xA5, 0x5A, 1, 0, byte].map (fun byte => .receiver (.read [byte])) ++
    [.receiver .gate, .receiver .admitUart, .net (.send .pop), .net (.send (.write 5))]

def download (byte : UInt8) : List CoreEvent :=
  [.net (.receive .start)] ++
    [0xB5, 0x4E, 1, 0, byte].map (fun byte => .net (.receive (.read [byte]))) ++
    [.net (.receive .checkSpace), .net (.receive .tryPush), .transmitter .pop,
      .transmitter (.write 4), .transmitter (.write 1)]

end Uart
end PicoFi
