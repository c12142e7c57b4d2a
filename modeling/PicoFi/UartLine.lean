import PicoFi.UartCores
import PicoFi.UartValidator

/-!
# What the UART carries

The runs of the two cores with a record of the bytes of the UART: what has
arrived and what the reader has made of it, which commands were answered, which
packets the download mailbox has taken from whom, and what has been written.
The reader is never stuck and never behind for anything but the UART, and the
bytes written are read back by the host as the packets in their order.
-/

namespace PicoFi
namespace Uart

open BridgeFrame Buffer LinkFrame Mailbox PicoFi.Stream UartMailbox UartValidator

structure LineRun where
  state : UartBridge
  arrivals : List Arrival
  /-- What `read` has returned. -/
  handled : List FrameResult
  /-- The commands answered, each with its reply and whether the mailbox has
  taken it. -/
  answered : List (List UInt8 × Packet × Bool)
  /-- What the download mailbox has taken, from the network or in reply. -/
  queued : List (Producer × Packet)
  /-- The packets popped for the UART, and the bytes it has accepted. -/
  written : List Packet
  out : List UInt8
  /-- A write has failed. -/
  cut : Bool

namespace LineRun

def boot (config : BridgeConfig) (client : Bool) : LineRun where
  state := UartBridge.boot config client emptyQueue emptyQueue
  arrivals := []
  handled := []
  answered := []
  queued := []
  written := []
  out := []
  cut := false

def arrivedBy : CoreEvent → List Arrival
  | .receiver (.read bytes) => bytes.map .byte
  | .receiver .fault => [.fault]
  | _ => []

def returnedBy (next : ReadBuffers × CallStatus) : List FrameResult :=
  match next.2 with
  | .returned outcome => [outcome.result next.1.payload]
  | _ => []

def handledBy (s : UartBridge) (e : CoreEvent) : List FrameResult :=
  match e, s.receiver with
  | .receiver .call, _ => returnedBy s.bufs.enter
  | .receiver (.read bytes), .read request =>
      returnedBy (s.bufs.resume request (some bytes))
  | .receiver .fault, .read request => returnedBy (s.bufs.resume request none)
  | _, _ => []

def answeredBy (s : UartBridge) (e : CoreEvent) : List (List UInt8 × Packet × Bool) :=
  match e, s.receiver with
  | .receiver (.command runtime), .command packet =>
      let reply := replyPacket s.config { runtime with linkActive := s.linkActive }
        (trimAsciiLine packet.payload)
      [(packet.payload, reply, (s.net.download.tryPushRef reply).2)]
  | _, _ => []

def queuedBy (s : UartBridge) : CoreEvent → List (Producer × Packet)
  | .net (.receive e) => ForwardRun.queuedBy s.net (.receive e)
  | e =>
      ((answeredBy s e).filter fun entry => entry.2.2).map
        fun entry => (.other, entry.2.1)

def writtenBy (s : UartBridge) : CoreEvent → List Packet
  | .transmitter .pop => s.net.download.tryPop.2.toList
  | _ => []

def outBy (s : UartBridge) (e : CoreEvent) : List UInt8 :=
  match e, s.transmitter with
  | .transmitter (.write n), .write (buffer :: _) => buffer.take n
  | _, _ => []

def step (r : LineRun) (e : CoreEvent) : Option LineRun :=
  (r.state.step e).map fun state =>
    { state := state
      arrivals := r.arrivals ++ arrivedBy e
      handled := r.handled ++ handledBy r.state e
      answered := r.answered ++ answeredBy r.state e
      queued := r.queued ++ queuedBy r.state e
      written := r.written ++ writtenBy r.state e
      out := r.out ++ outBy r.state e
      cut := r.cut || e matches .transmitter .fault }

end LineRun

/-! ## Writing packets to the UART -/

theorem uartBuffers_flatten (packet : Packet) :
    (uartBuffers packet).flatten = framed (uartPair packet.kind) packet.payload := by
  simp [uartBuffers, framed]

def lineFrames (packets : List Packet) : List UInt8 :=
  packets.flatMap fun packet => framed (uartPair packet.kind) packet.payload

/-- Between two packets the UART has accepted whole frames; inside one, the
frames before it and a part of its own. -/
inductive Transmitting : SendState → List Packet → List UInt8 → Prop
  | between (written : List Packet) : Transmitting .pop written (lineFrames written)
  | inside (done : List Packet) {packet : Packet} {front buffer : List UInt8}
      {rest : List (List UInt8)} (hbuffer : buffer ≠ [])
      (hframe : framed (uartPair packet.kind) packet.payload =
        front ++ (buffer :: rest).flatten) :
      Transmitting (.write (buffer :: rest)) (done ++ [packet]) (lineFrames done ++ front)

theorem transmitting_afterWrite (done : List Packet) {packet : Packet}
    {front : List UInt8} {buffers : List (List UInt8)}
    (hframe : framed (uartPair packet.kind) packet.payload = front ++ buffers.flatten) :
    Transmitting (afterWrite buffers) (done ++ [packet]) (lineFrames done ++ front) := by
  induction buffers with
  | nil =>
      rw [List.flatten_nil, List.append_nil] at hframe
      have hbetween := Transmitting.between (done ++ [packet])
      rw [lineFrames, List.flatMap_append, List.flatMap_singleton, hframe] at hbetween
      exact hbetween
  | cons buffer rest ih =>
      cases buffer with
      | nil => exact ih hframe
      | cons b buffer => exact .inside done (List.cons_ne_nil b buffer) hframe

theorem Transmitting.out_begins {transmitter : SendState} {written : List Packet}
    {out : List UInt8} (hline : Transmitting transmitter written out) :
    out <+: lineFrames written := by
  cases hline with
  | between => exact List.prefix_rfl
  | inside done hbuffer hframe =>
      rw [lineFrames, lineFrames, List.flatMap_append, List.flatMap_singleton, hframe]
      exact (List.prefix_append_right_inj _).mpr (List.prefix_append _ _)

/-- What a step of the writing loop does to core 1's line; an error is left
aside. -/
theorem Transmitting.afterStep {s t : UartBridge} {written : List Packet}
    {out : List UInt8} {e : TransmitterEvent} (hne : e ≠ .fault)
    (hline : Transmitting s.transmitter written out)
    (hstep : s.transmitterStep e = some t) :
    Transmitting t.transmitter (written ++ LineRun.writtenBy s (.transmitter e))
      (out ++ LineRun.outBy s (.transmitter e)) := by
  cases e with
  | fault => exact absurd rfl hne
  | pop =>
      simp only [UartBridge.transmitterStep] at hstep
      split at hstep
      · next download packet hpopping hpop =>
        cases hstep
        rw [hpopping] at hline
        cases hline
        have hnext := @transmitting_afterWrite written packet [] (uartBuffers packet)
          (uartBuffers_flatten packet).symm
        simpa [LineRun.writtenBy, LineRun.outBy, hpop] using hnext
      · cases hstep
  | write n =>
      simp only [UartBridge.transmitterStep] at hstep
      split at hstep
      · next buffer rest hwriting =>
        obtain ⟨-, hnext⟩ := Option.ite_none_right_eq_some.mp hstep
        rw [hwriting] at hline
        cases hline with
        | @inside done packet front _ _ hbuffer hframe =>
          have hsplit : framed (uartPair packet.kind) packet.payload =
              (front ++ buffer.take n) ++ (buffer.drop n :: rest).flatten := by
            rw [hframe, List.flatten_cons, List.flatten_cons, List.append_assoc,
              ← List.append_assoc (buffer.take n), List.take_append_drop]
          have hline := transmitting_afterWrite done hsplit
          have htransmitter : t.transmitter = afterWrite (buffer.drop n :: rest) := by
            split at hnext <;> cases hnext <;> simp_all
          rw [htransmitter]
          simpa [LineRun.writtenBy, LineRun.outBy, hwriting] using hline
      · cases hstep

/-! ## Reading packets from the UART -/

/-- The payload of a command. -/
def commandOf : FrameResult → Option (List UInt8)
  | .ok kind payload => if kind = reqCommandMagic then some payload else none
  | .err => none

/-- The command that was read and is not answered yet. -/
def ReceiverState.unanswered : ReceiverState → List (List UInt8)
  | .command packet => [packet.payload]
  | _ => []

def AtCall : ReceiverState → Partial → Prop
  | .read request, p => request = p.request
  | _, p => p = Partial.empty

/-- The condition of each event of the reading loop: of the rest of the bridge
it says nothing. -/
def ReceiverReady (receiver : ReceiverState) (bufs : ReadBuffers) :
    ReceiverEvent → Prop
  | .call => receiver = .call
  | .read bytes => ∃ request, receiver = .read request ∧
      bytes ≠ [] ∧ bytes.length ≤ bufs.requestSize request
  | .fault => ∃ request, receiver = .read request
  | .command _ => ∃ packet, receiver = .command packet
  | .gate => ∃ packet, receiver = .gate packet
  | .admitUart => ∃ packet, receiver = .admitUart packet
  | .pause => receiver = .pause

/-- What the reader has made of the bytes so far. -/
structure ReadLine (receiver : ReceiverState) (bufs : ReadBuffers)
    (arrivals : List Arrival) (handled : List FrameResult)
    (answered : List (List UInt8)) : Prop where
  reading : ∃ p, Tracks uartMagic true maxPayload bufs p ∧
    Partial.empty.decode uartMagic true maxPayload arrivals = (p, handled) ∧
    AtCall receiver p
  commands_eq : handled.filterMap commandOf = answered ++ receiver.unanswered

section Reading

variable {s : UartBridge} {arrivals : List Arrival} {handled : List FrameResult}
variable {answered : List (List UInt8)}

/-- A poll that follows the decoder parks, or has returned the next result. -/
theorem ReadLine.exists_settleRead {p : Partial} {extra : List Arrival}
    (hdecode : Partial.empty.decode uartMagic true maxPayload arrivals = (p, handled))
    (hcommands : handled.filterMap commandOf = answered)
    {next : ReadBuffers × CallStatus}
    (hfollows : Follows uartMagic true maxPayload next
      (p.decode uartMagic true maxPayload extra)) :
    ∃ t, s.settleRead next = some t ∧
      ReadLine t.receiver t.bufs (arrivals ++ extra)
        (handled ++ LineRun.returnedBy next) answered := by
  have hwhole := @Partial.decode_append uartMagic true maxPayload Partial.empty
    arrivals extra
  rw [hdecode] at hwhole
  generalize p.decode uartMagic true maxPayload extra = decoded at hfollows hwhole
  cases hfollows with
  | @parked bufs p htracks =>
      refine ⟨{ s with bufs := bufs, receiver := .read p.request }, rfl,
        ⟨p, htracks, ?_, rfl⟩, ?_⟩
      · simpa [LineRun.returnedBy] using hwhole
      · simpa [LineRun.returnedBy, ReceiverState.unanswered] using hcommands
  | @returned bufs outcome hlen htracks =>
      cases outcome with
      | err =>
          refine ⟨{ s with bufs := bufs, receiver := .pause, rxErrors := s.rxErrors + 1 },
            rfl, ⟨Partial.empty, htracks, hwhole, rfl⟩, ?_⟩
          simp [LineRun.returnedBy, ReadOutcome.result, commandOf, hcommands,
            ReceiverState.unanswered]
      | ok kind len =>
          change len ≤ maxPayload at hlen
          obtain ⟨packet, hpacket, hpayload⟩ :=
            exists_finishPacket kind htracks.payload_length hlen
          refine ⟨{ s with
            bufs := bufs
            receiver := if kind = reqCommandMagic then .command packet else .gate packet },
            by simp only [UartBridge.settleRead, hpacket, Option.map_some],
            ⟨Partial.empty, htracks, hwhole, ?_⟩, ?_⟩
          · dsimp only
            split <;> rfl
          · by_cases hkind : kind = reqCommandMagic
            · simp [LineRun.returnedBy, ReadOutcome.result, commandOf, hkind,
                ReceiverState.unanswered, hcommands, hpayload]
            · simp [LineRun.returnedBy, ReadOutcome.result, commandOf, hkind,
                ReceiverState.unanswered, hcommands]

theorem receiverReady_of_step {t : UartBridge} {e : ReceiverEvent}
    (hstep : s.receiverStep e = some t) : ReceiverReady s.receiver s.bufs e := by
  cases e with
  | read bytes =>
      simp only [UartBridge.receiverStep] at hstep
      split at hstep
      · next request hreceiver =>
        obtain ⟨hbytes, -⟩ := Option.ite_none_right_eq_some.mp hstep
        exact ⟨request, hreceiver, hbytes⟩
      · cases hstep
  | _ =>
      cases hreceiver : s.receiver <;> simp [UartBridge.receiverStep, hreceiver] at hstep
      simp [ReceiverReady]

/-- Between two calls of `read`. -/
theorem readLine_atCall {receiver : ReceiverState} {bufs : ReadBuffers}
    (htracks : Tracks uartMagic true maxPayload bufs Partial.empty)
    (hdecode : Partial.empty.decode uartMagic true maxPayload arrivals =
      (Partial.empty, handled))
    (hcall : AtCall receiver Partial.empty) (hidle : receiver.unanswered = [])
    (hcommands : handled.filterMap commandOf = answered) :
    ReadLine receiver bufs (arrivals ++ []) (handled ++ []) answered where
  reading := ⟨Partial.empty, htracks, by simpa using hdecode, hcall⟩
  commands_eq := by simpa [hidle] using hcommands

/-- Whatever the mailboxes hold and the other core does, an event whose
condition holds is taken; nothing panics. -/
theorem ReadLine.exists_step {e : ReceiverEvent}
    (hread : ReadLine s.receiver s.bufs arrivals handled answered)
    (hready : ReceiverReady s.receiver s.bufs e) :
    ∃ t, s.receiverStep e = some t ∧
      ReadLine t.receiver t.bufs (arrivals ++ LineRun.arrivedBy (.receiver e))
        (handled ++ LineRun.handledBy s (.receiver e))
        (answered ++ (LineRun.answeredBy s (.receiver e)).map Prod.fst) := by
  obtain ⟨⟨p, htracks, hdecode, hcall⟩, hcommands⟩ := hread
  cases e with
  | call =>
      have hreceiver : s.receiver = .call := hready
      rw [hreceiver] at hcommands hcall
      obtain rfl : p = Partial.empty := hcall
      have hfollows : Follows uartMagic true maxPayload s.bufs.enter
          (Partial.empty.decode uartMagic true maxPayload []) := by
        rw [htracks.enter]
        exact .parked htracks
      obtain ⟨t, ht, hnext⟩ := ReadLine.exists_settleRead (s := s) hdecode
        (by simpa [ReceiverState.unanswered] using hcommands) hfollows
      refine ⟨t, by simpa [UartBridge.receiverStep, hreceiver] using ht, ?_⟩
      simpa [LineRun.arrivedBy, LineRun.handledBy, LineRun.answeredBy, hreceiver]
        using hnext
  | read bytes =>
      obtain ⟨request, hreceiver, hbytes, hsize⟩ := hready
      rw [hreceiver] at hcommands hcall
      obtain rfl : request = p.request := hcall
      obtain ⟨t, ht, hnext⟩ := ReadLine.exists_settleRead (s := s) hdecode
        (by simpa [ReceiverState.unanswered] using hcommands)
        (htracks.resume hbytes hsize)
      refine ⟨t, ?_, ?_⟩
      · simp only [UartBridge.receiverStep, hreceiver, if_pos (And.intro hbytes hsize)]
        exact ht
      · simpa [LineRun.arrivedBy, LineRun.handledBy, LineRun.answeredBy, hreceiver]
          using hnext
  | fault =>
      obtain ⟨request, hreceiver⟩ := hready
      rw [hreceiver] at hcommands hcall
      obtain rfl : request = p.request := hcall
      obtain ⟨t, ht, hnext⟩ := ReadLine.exists_settleRead (s := s) hdecode
        (by simpa [ReceiverState.unanswered] using hcommands) htracks.fault
      refine ⟨t, by simpa [UartBridge.receiverStep, hreceiver] using ht, ?_⟩
      simpa [LineRun.arrivedBy, LineRun.handledBy, LineRun.answeredBy, hreceiver]
        using hnext
  | command runtime =>
      obtain ⟨packet, hreceiver⟩ := hready
      rw [hreceiver] at hcommands hcall
      obtain rfl : p = Partial.empty := hcall
      have hanswered : handled.filterMap commandOf = answered ++ [packet.payload] :=
        hcommands
      obtain ⟨t, ht, hnext, hbufs⟩ : ∃ t, s.receiverStep (.command runtime) = some t ∧
          t.receiver = .call ∧ t.bufs = s.bufs := by
        simp only [UartBridge.receiverStep, hreceiver]
        split <;> exact ⟨_, rfl, rfl, rfl⟩
      refine ⟨t, ht, ?_⟩
      rw [hnext, hbufs]
      refine readLine_atCall htracks hdecode rfl rfl ?_
      simpa [LineRun.answeredBy, hreceiver, ReceiverState.unanswered] using hcommands
  | gate =>
      obtain ⟨packet, hreceiver⟩ := hready
      rw [hreceiver] at hcommands hcall
      obtain rfl : p = Partial.empty := hcall
      obtain ⟨t, ht, hnext, hbufs⟩ : ∃ t, s.receiverStep .gate = some t ∧
          (t.receiver = .admitUart packet ∨ t.receiver = .call) ∧ t.bufs = s.bufs := by
        simp only [UartBridge.receiverStep, hreceiver]
        refine ⟨_, rfl, ?_, rfl⟩
        cases s.linkActive <;> simp
      refine ⟨t, ht, ?_⟩
      rw [hbufs]
      rcases hnext with hnext | hnext <;> rw [hnext] <;>
        exact readLine_atCall htracks hdecode rfl rfl
          (by simpa [LineRun.answeredBy, ReceiverState.unanswered] using hcommands)
  | admitUart =>
      obtain ⟨packet, hreceiver⟩ := hready
      rw [hreceiver] at hcommands hcall
      obtain rfl : p = Partial.empty := hcall
      obtain ⟨t, ht, hnext, hbufs⟩ : ∃ t, s.receiverStep .admitUart = some t ∧
          t.receiver = .call ∧ t.bufs = s.bufs := by
        simp only [UartBridge.receiverStep, hreceiver]
        split <;> exact ⟨_, rfl, rfl, rfl⟩
      refine ⟨t, ht, ?_⟩
      rw [hnext, hbufs]
      exact readLine_atCall htracks hdecode rfl rfl
        (by simpa [LineRun.answeredBy, ReceiverState.unanswered] using hcommands)
  | pause =>
      have hreceiver : s.receiver = .pause := hready
      rw [hreceiver] at hcommands hcall
      obtain rfl : p = Partial.empty := hcall
      refine ⟨{ s with receiver := .call }, by simp [UartBridge.receiverStep, hreceiver], ?_⟩
      exact readLine_atCall htracks hdecode rfl rfl
        (by simpa [LineRun.answeredBy, ReceiverState.unanswered] using hcommands)

end Reading

/-! ## The mailbox between the cores -/

/-- Packets of the network are data, replies are commands. -/
def producerKind : Producer → UInt8
  | .stream => reqDataMagic
  | .other => reqCommandMagic

/-- The replies that the mailbox has taken. -/
def taken (answered : List (List UInt8 × Packet × Bool)) : List Packet :=
  (answered.filter fun entry => entry.2.2).map fun entry => entry.2.1

structure OnLine (r : LineRun) : Prop where
  read : ReadLine r.state.receiver r.state.bufs r.arrivals r.handled
    (r.answered.map Prod.fst)
  replies : ∀ entry ∈ r.answered, ∃ runtime,
    entry.2.1 = replyPacket r.state.config runtime (trimAsciiLine entry.1)
  download_eq : r.written.map QueueCodec.wire ++ r.state.net.download.contents =
    r.queued.map fun entry => QueueCodec.wire entry.2
  taken_eq : (r.queued.filter fun entry => entry.1 == .other).map Prod.snd =
    taken r.answered
  kinds : ∀ entry ∈ r.queued, entry.2.kind = producerKind entry.1
  waiting_kind : ∀ packet ∈ r.state.net.receive.waiting, packet.kind = reqDataMagic
  line : r.cut = false → Transmitting r.state.transmitter r.written r.out

section Frames

variable {s t : UartBridge}

theorem finishPacket_kind {kind : UInt8} {buffer : List UInt8} {len : ℕ} {packet : Packet}
    (hpacket : finishPacket kind buffer len = some packet) : packet.kind = kind := by
  unfold finishPacket at hpacket
  split at hpacket
  · cases hpacket
    rfl
  · cases hpacket

/-- Only data comes from the network. -/
theorem waiting_kind_of_receiveStep {s t : ForwardTcp} {e : ReceiveEvent}
    (hstep : s.receiveStep e = some t)
    (hwaiting : ∀ packet ∈ s.receive.waiting, packet.kind = reqDataMagic) :
    ∀ packet ∈ t.receive.waiting, packet.kind = reqDataMagic := by
  have hsettled : ∀ {s : ForwardTcp} {next : ReadBuffers × CallStatus},
      (∀ packet ∈ s.receive.waiting, packet.kind = reqDataMagic) →
      s.settleRead next = some t →
        ∀ packet ∈ t.receive.waiting, packet.kind = reqDataMagic := by
    intro s next hwaiting hsettle
    unfold ForwardTcp.settleRead at hsettle
    split at hsettle
    · cases hsettle
      simp [ReceiveState.waiting]
    · obtain ⟨packet, hpacket, rfl⟩ := Option.map_eq_some_iff.mp hsettle
      simpa [ReceiveState.waiting] using finishPacket_kind hpacket
    · cases hsettle
      exact hwaiting
    · cases hsettle
  cases hreceive : s.receive with
  | start =>
      cases e <;> simp only [ForwardTcp.receiveStep, hreceive, reduceCtorEq] at hstep
      exact hsettled hwaiting hstep
  | read request =>
      cases e <;> simp only [ForwardTcp.receiveStep, hreceive, reduceCtorEq] at hstep
      · exact hsettled hwaiting (Option.ite_none_right_eq_some.mp hstep).2
      · exact hsettled hwaiting hstep
  | waitForSpace packet =>
      rw [hreceive] at hwaiting
      cases e with
      | checkSpace =>
          simp only [ForwardTcp.receiveStep, hreceive,
            if_neg (queuedLen_bounds packet)] at hstep
          obtain ⟨-, hnext⟩ := Option.ite_none_right_eq_some.mp hstep
          cases hnext
          exact hwaiting
      | _ => simp [ForwardTcp.receiveStep, hreceive] at hstep
  | tryPush packet =>
      rw [hreceive] at hwaiting
      cases e <;> simp only [ForwardTcp.receiveStep, hreceive, reduceCtorEq] at hstep
      split at hstep <;> cases hstep
      · simp [ReceiveState.waiting]
      · exact hwaiting

theorem mem_queuedBy_receive {s : ForwardTcp} {e : ReceiveEvent}
    {entry : Producer × Packet} (hmem : entry ∈ ForwardRun.queuedBy s (.receive e)) :
    entry.1 = .stream ∧ entry.2 ∈ s.receive.waiting := by
  cases e <;> simp only [ForwardRun.queuedBy, List.not_mem_nil] at hmem
  split at hmem
  · next packet hreceive =>
    split at hmem
    · obtain rfl := List.mem_singleton.mp hmem
      simp [hreceive, ReceiveState.waiting]
    · simp at hmem
  · simp at hmem

/-- What core 0 leaves alone, and what it puts in the download mailbox. -/
structure NetFrame (s t : UartBridge) (e : NetEvent) : Prop where
  receiver_eq : t.receiver = s.receiver
  bufs_eq : t.bufs = s.bufs
  transmitter_eq : t.transmitter = s.transmitter
  config_eq : t.config = s.config
  download_eq : t.net.download.contents = s.net.download.contents ++
    (LineRun.queuedBy s (.net e)).map fun entry => QueueCodec.wire entry.2
  waiting_kind : (∀ packet ∈ s.net.receive.waiting, packet.kind = reqDataMagic) →
    ∀ packet ∈ t.net.receive.waiting, packet.kind = reqDataMagic

theorem netFrame_of_step {e : NetEvent} (hstep : s.netStep e = some t) :
    NetFrame s t e := by
  cases e with
  | receive e =>
      obtain ⟨-, hnext⟩ := Option.ite_none_right_eq_some.mp hstep
      obtain ⟨net, hnet, rfl⟩ := Option.map_eq_some_iff.mp hnext
      simp only [ForwardTcp.step] at hnet
      obtain ⟨-, hreceive⟩ := Option.ite_none_left_eq_some.mp hnet
      exact ⟨rfl, rfl, rfl, rfl, (receiveStep_frame hreceive).2.2,
        waiting_kind_of_receiveStep hreceive⟩
  | send e =>
      obtain ⟨-, hnext⟩ := Option.ite_none_right_eq_some.mp hstep
      obtain ⟨net, hnet, rfl⟩ := Option.map_eq_some_iff.mp hnext
      simp only [ForwardTcp.step] at hnet
      obtain ⟨-, hsend⟩ := Option.ite_none_left_eq_some.mp hnet
      obtain ⟨hdownload, hreceive, -, -⟩ := sendStep_frame hsend
      refine ⟨rfl, rfl, rfl, rfl, ?_, ?_⟩
      · simp [LineRun.queuedBy, LineRun.answeredBy, hdownload]
      · simp [hreceive]
  | drain =>
      obtain ⟨-, upload, packet, -, rfl⟩ := drain_cases hstep
      exact ⟨rfl, rfl, rfl, rfl, by simp [LineRun.queuedBy, LineRun.answeredBy], id⟩
  | drained =>
      simp only [UartBridge.netStep] at hstep
      split at hstep <;> cases hstep
      exact ⟨rfl, rfl, rfl, rfl, by simp [LineRun.queuedBy, LineRun.answeredBy], id⟩
  | activate =>
      obtain ⟨-, hnext⟩ := Option.ite_none_right_eq_some.mp hstep
      cases hnext
      refine ⟨rfl, rfl, rfl, rfl, ?_, ?_⟩
      · simp [LineRun.queuedBy, LineRun.answeredBy, ForwardTcp.start]
      · simp [ForwardTcp.start, ReceiveState.waiting]
  | _ =>
      obtain ⟨-, hnext⟩ := Option.ite_none_right_eq_some.mp hstep
      cases hnext
      exact ⟨rfl, rfl, rfl, rfl, by simp [LineRun.queuedBy, LineRun.answeredBy], id⟩

theorem transmitter_frame {e : TransmitterEvent} (hstep : s.transmitterStep e = some t) :
    t.receiver = s.receiver ∧ t.bufs = s.bufs ∧ t.config = s.config ∧
      t.net.receive = s.net.receive ∧
      s.net.download.contents =
        (LineRun.writtenBy s (.transmitter e)).map QueueCodec.wire ++
          t.net.download.contents := by
  cases e with
  | pop =>
      simp only [UartBridge.transmitterStep] at hstep
      split at hstep
      · next download packet hpopping hpop =>
        cases hstep
        have hitem : s.net.download.tryPop.2 = some packet := by rw [hpop]
        have hcontents := OverwriteQueue.contents_of_tryPop hitem
        rw [hpop] at hcontents
        exact ⟨rfl, rfl, rfl, rfl, by simp [LineRun.writtenBy, hpop, hcontents]⟩
      · cases hstep
  | write n =>
      simp only [UartBridge.transmitterStep] at hstep
      split at hstep
      · obtain ⟨-, hnext⟩ := Option.ite_none_right_eq_some.mp hstep
        split at hnext <;> cases hnext <;> simp [LineRun.writtenBy]
      · cases hstep
  | fault =>
      simp only [UartBridge.transmitterStep] at hstep
      split at hstep <;> cases hstep
      simp [LineRun.writtenBy]

theorem receiver_frame {e : ReceiverEvent} (hstep : s.receiverStep e = some t) :
    t.transmitter = s.transmitter ∧ t.config = s.config ∧
      t.net.receive = s.net.receive ∧
      t.net.download.contents = s.net.download.contents ++
        (LineRun.queuedBy s (.receiver e)).map fun entry => QueueCodec.wire entry.2 := by
  have hsettled : ∀ {next : ReadBuffers × CallStatus}, s.settleRead next = some t →
      t.transmitter = s.transmitter ∧ t.config = s.config ∧ t.net = s.net := by
    intro next hsettle
    unfold UartBridge.settleRead at hsettle
    split at hsettle
    · cases hsettle
      exact ⟨rfl, rfl, rfl⟩
    · obtain ⟨packet, -, rfl⟩ := Option.map_eq_some_iff.mp hsettle
      exact ⟨rfl, rfl, rfl⟩
    · cases hsettle
      exact ⟨rfl, rfl, rfl⟩
    · cases hsettle
  have hquiet : t.transmitter = s.transmitter ∧ t.config = s.config ∧ t.net = s.net →
      LineRun.queuedBy s (.receiver e) = [] →
      t.transmitter = s.transmitter ∧ t.config = s.config ∧
        t.net.receive = s.net.receive ∧
        t.net.download.contents = s.net.download.contents ++
          (LineRun.queuedBy s (.receiver e)).map fun entry => QueueCodec.wire entry.2 := by
    rintro ⟨htransmitter, hconfig, hnet⟩ hqueued
    rw [hqueued, hnet]
    exact ⟨htransmitter, hconfig, rfl, by simp⟩
  cases hreceiver : s.receiver with
  | call =>
      cases e <;> simp only [UartBridge.receiverStep, hreceiver, reduceCtorEq] at hstep
      exact hquiet (hsettled hstep) rfl
  | read request =>
      cases e <;> simp only [UartBridge.receiverStep, hreceiver, reduceCtorEq] at hstep
      · exact hquiet (hsettled (Option.ite_none_right_eq_some.mp hstep).2)
          (by simp [LineRun.queuedBy, LineRun.answeredBy])
      · exact hquiet (hsettled hstep) (by simp [LineRun.queuedBy, LineRun.answeredBy])
  | command packet =>
      cases e <;> simp only [UartBridge.receiverStep, hreceiver, reduceCtorEq] at hstep
      next runtime =>
      have hcontents := s.net.download.contents_push
        (replyPacket s.config { runtime with linkActive := s.linkActive }
          (trimAsciiLine packet.payload))
      rcases hpush : s.net.download.tryPushRef (replyPacket s.config
        { runtime with linkActive := s.linkActive } (trimAsciiLine packet.payload))
        with ⟨download, _ | _⟩
      all_goals
        rw [hpush] at hcontents
        simp only [hpush, Option.some.injEq] at hstep
        subst hstep
        simpa [LineRun.queuedBy, LineRun.answeredBy, hreceiver, hpush] using hcontents
  | gate packet =>
      cases e <;> simp only [UartBridge.receiverStep, hreceiver, reduceCtorEq] at hstep
      cases hstep
      exact hquiet ⟨rfl, rfl, rfl⟩ (by simp [LineRun.queuedBy, LineRun.answeredBy])
  | admitUart packet =>
      cases e <;> simp only [UartBridge.receiverStep, hreceiver, reduceCtorEq] at hstep
      split at hstep <;> cases hstep <;>
        simp [LineRun.queuedBy, LineRun.answeredBy]
  | pause =>
      cases e <;> simp only [UartBridge.receiverStep, hreceiver, reduceCtorEq] at hstep
      cases hstep
      exact hquiet ⟨rfl, rfl, rfl⟩ (by simp [LineRun.queuedBy, LineRun.answeredBy])

theorem mem_queuedBy_net {e : NetEvent} {entry : Producer × Packet}
    (hmem : entry ∈ LineRun.queuedBy s (.net e)) :
    entry.1 = .stream ∧ entry.2 ∈ s.net.receive.waiting := by
  cases e with
  | receive e => exact mem_queuedBy_receive hmem
  | _ => simp [LineRun.queuedBy, LineRun.answeredBy] at hmem

end Frames

/-! ## Whole runs -/

section Steps

variable {r t : LineRun}

theorem onLine_boot (config : BridgeConfig) (client : Bool) :
    OnLine (LineRun.boot config client) where
  read :=
    { reading := ⟨Partial.empty, Tracks.ofEmpty (by simp) rfl, rfl, rfl⟩
      commands_eq := rfl }
  replies := by simp [LineRun.boot]
  download_eq := by
    simp [LineRun.boot, UartBridge.boot, ForwardTcp.start,
      show emptyQueue.contents = [] from OverwriteQueue.contents_empty (by decide)]
  taken_eq := rfl
  kinds := by simp [LineRun.boot]
  waiting_kind := by simp [LineRun.boot, UartBridge.boot, ForwardTcp.start,
    ReceiveState.waiting]
  line _ := .between []

theorem OnLine.afterNet (hr : OnLine r) {e : NetEvent}
    (hstep : r.step (.net e) = some t) : OnLine t := by
  obtain ⟨state, hstate, rfl⟩ := Option.map_eq_some_iff.mp hstep
  have hframe : NetFrame r.state state e := netFrame_of_step hstate
  have hqueued : ∀ entry ∈ LineRun.queuedBy r.state (.net e), entry.1 = .stream ∧
      entry.2.kind = reqDataMagic := fun entry hmem =>
    ⟨(mem_queuedBy_net hmem).1, hr.waiting_kind entry.2 (mem_queuedBy_net hmem).2⟩
  constructor
  · simpa [LineRun.arrivedBy, LineRun.handledBy, LineRun.answeredBy,
      hframe.receiver_eq, hframe.bufs_eq] using hr.read
  · simpa [LineRun.answeredBy, hframe.config_eq] using hr.replies
  · simp [LineRun.writtenBy, hframe.download_eq, ← List.append_assoc, ← hr.download_eq]
  · have hnone : (LineRun.queuedBy r.state (.net e)).filter
        (fun entry => entry.1 == .other) = [] := by
      rw [List.filter_eq_nil_iff]
      intro entry hmem
      simp [(hqueued entry hmem).1]
    simp [List.filter_append, hnone, LineRun.answeredBy, hr.taken_eq]
  · intro entry hmem
    rcases List.mem_append.mp hmem with hold | hnew
    · exact hr.kinds entry hold
    · rw [(hqueued entry hnew).1]
      exact (hqueued entry hnew).2
  · exact hframe.waiting_kind hr.waiting_kind
  · intro hcut
    simpa [LineRun.writtenBy, LineRun.outBy, hframe.transmitter_eq]
      using hr.line (by simpa using hcut)

theorem OnLine.afterTransmitter (hr : OnLine r) {e : TransmitterEvent}
    (hstep : r.step (.transmitter e) = some t) : OnLine t := by
  obtain ⟨state, hstate, rfl⟩ := Option.map_eq_some_iff.mp hstep
  obtain ⟨hreceiver, hbufs, hconfig, hreceive, hdownload⟩ := transmitter_frame hstate
  constructor
  · simpa [LineRun.arrivedBy, LineRun.handledBy, LineRun.answeredBy, hreceiver, hbufs]
      using hr.read
  · simpa [LineRun.answeredBy, hconfig] using hr.replies
  · have hbefore := hr.download_eq
    rw [hdownload, ← List.append_assoc] at hbefore
    simpa [LineRun.queuedBy, LineRun.answeredBy] using hbefore
  · simpa [LineRun.queuedBy, LineRun.answeredBy] using hr.taken_eq
  · simpa [LineRun.queuedBy, LineRun.answeredBy] using hr.kinds
  · simpa [hreceive] using hr.waiting_kind
  · intro hcut
    have hne : e ≠ .fault := by
      rintro rfl
      simp at hcut
    have hbefore : r.cut = false := by
      cases hrcut : r.cut
      · rfl
      · simp [hrcut] at hcut
    exact (hr.line hbefore).afterStep hne hstate

theorem OnLine.afterReceiver (hr : OnLine r) {e : ReceiverEvent}
    (hstep : r.step (.receiver e) = some t) : OnLine t := by
  obtain ⟨state, hstate, rfl⟩ := Option.map_eq_some_iff.mp hstep
  obtain ⟨htransmitter, hconfig, hreceive, hdownload⟩ := receiver_frame hstate
  obtain ⟨other, hother, hread⟩ := hr.read.exists_step (receiverReady_of_step hstate)
  obtain rfl : state = other := Option.some.inj (hstate.symm.trans hother)
  constructor
  · simpa using hread
  · intro entry hmem
    rw [hconfig]
    rcases List.mem_append.mp hmem with hold | hnew
    · exact hr.replies entry hold
    · unfold LineRun.answeredBy at hnew
      split at hnew
      · obtain rfl := List.mem_singleton.mp hnew
        exact ⟨_, rfl⟩
      · simp at hnew
  · simp [LineRun.writtenBy, hdownload, ← List.append_assoc, ← hr.download_eq]
  · have hsame : (LineRun.queuedBy r.state (.receiver e)).filter
        (fun entry => entry.1 == .other) = LineRun.queuedBy r.state (.receiver e) := by
      rw [List.filter_eq_self]
      intro entry hmem
      obtain ⟨reply, -, rfl⟩ := List.mem_map.mp hmem
      rfl
    have htaken : (LineRun.queuedBy r.state (.receiver e)).map Prod.snd =
        taken (LineRun.answeredBy r.state (.receiver e)) := by
      simp [LineRun.queuedBy, taken]
    simp only [List.filter_append, hsame, List.map_append, htaken, hr.taken_eq, taken]
  · intro entry hmem
    rcases List.mem_append.mp hmem with hold | hnew
    · exact hr.kinds entry hold
    · obtain ⟨reply, hreply, rfl⟩ := List.mem_map.mp hnew
      have hmem := List.mem_of_mem_filter hreply
      unfold LineRun.answeredBy at hmem
      split at hmem
      · obtain rfl := List.mem_singleton.mp hmem
        rfl
      · simp at hmem
  · simpa [hreceive] using hr.waiting_kind
  · intro hcut
    simpa [LineRun.writtenBy, LineRun.outBy, htransmitter]
      using hr.line (by simpa using hcut)

theorem OnLine.afterStep (hr : OnLine r) {e : CoreEvent} (hstep : r.step e = some t) :
    OnLine t := by
  cases e with
  | net e => exact hr.afterNet hstep
  | receiver e => exact hr.afterReceiver hstep
  | transmitter e => exact hr.afterTransmitter hstep

end Steps

/-! ## What the host reads -/

def packetResult (packet : Packet) : FrameResult := .ok packet.kind packet.payload

def UartKind (kind : UInt8) : Prop := ∃ producer, kind = producerKind producer

theorem decode_framed_packet {packet : Packet} (hkind : UartKind packet.kind) :
    Partial.empty.decode uartMagic true payloadLimit
        ((framed (uartPair packet.kind) packet.payload).map .byte) =
      (Partial.empty, [packetResult packet]) := by
  have hpair : uartPair packet.kind ∈ uartMagic.toList := by
    obtain ⟨producer, hproducer⟩ := hkind
    rw [hproducer]
    cases producer <;> decide
  have hlen : packet.payload.length ≤ payloadLimit := by
    rw [Packet.length_payload]
    exact packet.len_le
  have hshort : packet.payload.length < 65536 := lt_of_le_of_lt hlen (by decide)
  exact decode_framed hpair hlen hshort

theorem decode_lineFrames {packets : List Packet}
    (hkinds : ∀ packet ∈ packets, UartKind packet.kind) :
    Partial.empty.decode uartMagic true payloadLimit ((lineFrames packets).map .byte) =
      (Partial.empty, packets.map packetResult) := by
  induction packets with
  | nil => rfl
  | cons packet packets ih =>
      rw [lineFrames, List.flatMap_cons, List.map_append, Partial.decode_append,
        decode_framed_packet (hkinds packet (by simp)), ← lineFrames,
        ih fun other h => hkinds other (List.mem_cons_of_mem _ h)]
      rfl

/-- A part of a frame is read as nothing: the frame takes all its bytes. -/
theorem decode_front {packet : Packet} {front rest : List UInt8}
    (hkind : UartKind packet.kind) (hrest : rest ≠ [])
    (hframe : framed (uartPair packet.kind) packet.payload = front ++ rest) :
    (Partial.empty.decode uartMagic true payloadLimit (front.map .byte)).2 = [] := by
  have hwhole := decode_framed_packet hkind
  rw [hframe, List.map_append, Partial.decode_append] at hwhole
  have hbegins : (Partial.empty.decode uartMagic true payloadLimit (front.map .byte)).2 <+:
      [packetResult packet] := ⟨_, congrArg Prod.snd hwhole⟩
  rcases List.prefix_cons_iff.mp hbegins with hnone | ⟨more, hall, hmore⟩
  · exact hnone
  · exfalso
    obtain rfl := List.prefix_nil.mp hmore
    have hsize := @Partial.decode_size uartMagic true payloadLimit Partial.empty
      (front.map .byte)
    have hlength := congrArg List.length hframe
    have hpos := List.length_pos_of_ne_nil hrest
    rw [length_framed, List.length_append] at hlength
    rw [hall] at hsize
    simp only [List.map_cons, List.map_nil, List.sum_cons, List.sum_nil, packetResult,
      FrameResult.size, Partial.held, Partial.empty, List.length_nil, List.length_map,
      frameHeaderSize] at hsize hlength
    omega

/-- The packets the host has read of those popped: the line holds their frames
and of the next one a part. -/
def HostReads (mode : Mode) (r : LineRun) : Prop :=
  ∃ done front, results ((FirmwareStyleValidator.new mode).reports r.out) =
      done.map packetResult ∧
    r.out = lineFrames done ++ front ∧ r.out <+: lineFrames r.written ∧
    done <+: r.written ∧ r.written.length ≤ done.length + 1 ∧
    (r.state.transmitter = .pop → done = r.written ∧ front = [])

theorem Transmitting.hostReads {r : LineRun} (mode : Mode)
    (hkinds : ∀ packet ∈ r.written, UartKind packet.kind)
    (hline : Transmitting r.state.transmitter r.written r.out) : HostReads mode r := by
  unfold HostReads
  rw [(InStep.ofNew mode).results_eq]
  generalize r.state.transmitter = transmitter at hline ⊢
  generalize r.out = out at hline ⊢
  generalize r.written = written at hline hkinds ⊢
  have hbegins := hline.out_begins
  cases hline with
  | between =>
      exact ⟨written, [], congrArg Prod.snd (decode_lineFrames hkinds),
        (List.append_nil _).symm, hbegins, List.prefix_rfl, Nat.le_succ _,
        fun _ => ⟨rfl, rfl⟩⟩
  | @inside done packet front buffer rest hbuffer hframe =>
      have hdone := decode_lineFrames
        fun other h => hkinds other (List.mem_append_left [packet] h)
      have hnone := decode_front (hkinds packet (by simp)) (by simp [hbuffer]) hframe
      refine ⟨done, front, ?_, rfl, hbegins, List.prefix_append _ _, by simp, by simp⟩
      rw [List.map_append, Partial.decode_append, hdone, hnone, List.append_nil]

/-- The packets popped for the UART are those the mailbox took first. -/
theorem OnLine.written_kinds {r : LineRun} (hr : OnLine r) :
    ∀ packet ∈ r.written, UartKind packet.kind := by
  intro packet hpacket
  have hwire : QueueCodec.wire packet ∈
      r.queued.map fun entry => QueueCodec.wire entry.2 := by
    rw [← hr.download_eq]
    exact List.mem_append_left _ (List.mem_map_of_mem hpacket)
  obtain ⟨entry, hentry, hsame⟩ := List.mem_map.mp hwire
  have hkind : entry.2.kind = packet.kind := ((Packet.encode_eq_iff _ _).mp hsame).1
  exact ⟨entry.1, hkind ▸ hr.kinds entry hentry⟩

theorem onLine_of_reaches {config : BridgeConfig} {client : Bool}
    {events : List CoreEvent} {r : LineRun}
    (hreach : Runs.Reaches LineRun.step (LineRun.boot config client) events r) :
    OnLine r :=
  hreach.invariant (fun _ _ _ h hstep => h.afterStep hstep) (onLine_boot config client)

/-- However the cores run, and wherever sessions begin and end: as long as no
write has failed, the host reads the packets popped for the UART, each whole,
in their order and without a byte between them, all but at most the one being
written; and these are the packets that the mailbox has taken, in their order,
those of the network as data and the replies as commands. -/
theorem uart_host_reads_packets (mode : Mode) (config : BridgeConfig) (client : Bool)
    (events : List CoreEvent) (r : LineRun)
    (hreach : Runs.Reaches LineRun.step (LineRun.boot config client) events r) :
    (r.cut = false → HostReads mode r) ∧
    r.written.map QueueCodec.wire ++ r.state.net.download.contents =
      r.queued.map (fun entry => QueueCodec.wire entry.2) ∧
    (∀ entry ∈ r.queued, entry.2.kind = producerKind entry.1) ∧
    (r.queued.filter fun entry => entry.1 == .other).map Prod.snd = taken r.answered := by
  have hr : OnLine r := onLine_of_reaches hreach
  exact ⟨fun hcut => (hr.line hcut).hostReads mode hr.written_kinds, hr.download_eq,
    hr.kinds, hr.taken_eq⟩

/-- The network delivers a frame of one byte, and the UART accepts it. -/
def downloadEvents : List CoreEvent :=
  openSession ++ [.net (.receive .start)] ++
    [0xB5, 0x4E, 1, 0, 7].map (fun byte => .net (.receive (.read [byte]))) ++
    [.net (.receive .checkSpace), .net (.receive .tryPush), .transmitter .pop,
      .transmitter (.write 4), .transmitter (.write 1)]

theorem uart_host_reads_packets_byte :
    ∃ r : LineRun, r.out = [0xA5, 0x5A, 1, 0, 7] ∧ HostReads .response r := by
  have hreach : (downloadEvents.foldlM LineRun.step
        (LineRun.boot BridgeConfig.spiServer false)).any
      (fun r : LineRun => !r.cut && r.out == [0xA5, 0x5A, 1, 0, 7]) = true := by
    decide +kernel
  obtain ⟨r, hr, hstate⟩ := (Option.any_eq_true _ _).mp hreach
  simp only [Bool.and_eq_true, Bool.not_eq_true', beq_iff_eq] at hstate
  obtain ⟨hcut, hout⟩ := hstate
  obtain ⟨hreads, -⟩ := uart_host_reads_packets .response _ _ _ r hr
  exact ⟨r, hout, hreads hcut⟩

end Uart
end PicoFi
