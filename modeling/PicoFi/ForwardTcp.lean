import PicoFi.BridgeConfig
import PicoFi.BridgeReading
import PicoFi.QueueItems

/-!
# Forwarding packets over one TCP connection

`forward_tcp` joins two endless loops: one writes the packets of the upload
queue to the socket, the other reads frames from it and pushes their payloads
to the download queue.  A step is what one of them does between two awaits,
or what another task does to a queue, so a run is any interleaving of the
two with any partial reads and writes.
-/

namespace PicoFi
namespace UartMailbox

open Buffer LinkFrame Mailbox PicoFi.Stream BridgeFrame

abbrev mailboxDepth : ℕ := 128
abbrev mailboxBytes : ℕ := 16384

/-- `OverwriteQueue<Packet, 128, 16384>` -/
abbrev PacketQueue := OverwriteQueue Packet mailboxDepth mailboxBytes

/-- The buffers `write_frame` hands to `write_all`, in order. -/
def writeFrame (magic : UInt8 × UInt8) (payload : List UInt8) :
    List (List UInt8) :=
  let header := [magic.1, magic.2] ++ le16 payload.length
  if payload.length ≤ 508 then [header ++ payload] else [header, payload]

/-- `packet.finish(kind, len)` after a read into the packet's buffer; `none`
is a length outside the buffer. -/
def finishPacket (kind : UInt8) (buffer : List UInt8) (len : ℕ) :
    Option Packet :=
  if h : buffer.length = maxPayload ∧ len ≤ maxPayload then
    some (Packet.finish kind ⟨buffer, h.1⟩ len h.2)
  else none

/-! ## The two loops -/

inductive SendState
  /-- At the head of the loop, where the next packet is popped. -/
  | pop
  /-- Inside `write_all`, with the buffers not written yet. -/
  | write (buffers : List (List UInt8))

inductive ReceiveState
  /-- At the head of the loop, before a packet is read. -/
  | start
  | read (request : ReadRequest)
  /-- Inside `push`, waiting for space. -/
  | waitForSpace (packet : Packet)
  /-- Inside `push`, after there was space. -/
  | tryPush (packet : Packet)

/-- The packet that was read and is not pushed yet. -/
def ReceiveState.waiting : ReceiveState → List Packet
  | .waitForSpace packet => [packet]
  | .tryPush packet => [packet]
  | _ => []

structure ForwardTcp where
  upload : PacketQueue
  download : PacketQueue
  send : SendState
  receive : ReceiveState
  bufs : ReadBuffers
  /-- A loop has returned an error. -/
  ended : Bool

inductive SendEvent
  | pop
  /-- The socket accepts the next `n` bytes. -/
  | write (n : ℕ)
  | fault

inductive ReceiveEvent
  | start
  /-- The socket delivers these bytes. -/
  | read (bytes : List UInt8)
  | fault
  | checkSpace
  | tryPush

/-- What other tasks do to the queues. -/
inductive QueueEvent
  | uploadPush (packet : Packet)
  | downloadPush (packet : Packet)
  | downloadPop

inductive ForwardEvent
  | send (e : SendEvent)
  | receive (e : ReceiveEvent)
  | queue (e : QueueEvent)

/-- `write_all` goes on with the next nonempty buffer, and the loop with the
next packet. -/
def afterWrite (buffers : List (List UInt8)) : SendState :=
  match buffers.dropWhile List.isEmpty with
  | [] => .pop
  | rest => .write rest

namespace ForwardTcp

def start (upload download : PacketQueue) : ForwardTcp where
  upload := upload
  download := download
  send := .pop
  receive := .start
  bufs := ⟨FrameReader.new bridgeMagic false, List.replicate maxPayload 0⟩
  ended := false

def sendStep (s : ForwardTcp) : SendEvent → Option ForwardTcp
  | .pop =>
      match s.send, s.upload.tryPop with
      | .pop, (upload, some packet) =>
          some { s with
            upload := upload
            send := afterWrite (writeFrame bridgeFrameMagic packet.payload) }
      | _, _ => none
  | .write n =>
      match s.send with
      | .write (buffer :: rest) =>
          if 0 < n ∧ n ≤ buffer.length then
            some { s with send := afterWrite (buffer.drop n :: rest) }
          else none
      | _ => none
  | .fault =>
      match s.send with
      | .write _ => some { s with ended := true }
      | .pop => none

/-- A call of `read` parks, or returns a packet or an error; `none` is an
index out of range. -/
def settleRead (s : ForwardTcp) (next : ReadBuffers × CallStatus) :
    Option ForwardTcp :=
  match next.2 with
  | .awaiting request =>
      some { s with bufs := next.1, receive := .read request }
  | .returned (.ok _ len) =>
      (finishPacket reqDataMagic next.1.payload len).map fun packet =>
        { s with bufs := next.1, receive := .waitForSpace packet }
  | .returned .err => some { s with bufs := next.1, ended := true }
  | .panicked => none

def receiveStep (s : ForwardTcp) : ReceiveEvent → Option ForwardTcp
  | .start =>
      match s.receive with
      | .start =>
          let bufs := { s.bufs with payload := List.replicate maxPayload 0 }
          s.settleRead bufs.enter
      | _ => none
  | .read bytes =>
      match s.receive with
      | .read request =>
          if bytes ≠ [] ∧ bytes.length ≤ s.bufs.requestSize request then
            s.settleRead (s.bufs.resume request (some bytes))
          else none
      | _ => none
  | .fault =>
      match s.receive with
      | .read request => s.settleRead (s.bufs.resume request none)
      | _ => none
  | .checkSpace =>
      match s.receive with
      | .waitForSpace packet =>
          if packet.queuedLen = 0 ∨ mailboxBytes < packet.queuedLen ∨
              mailboxDepth = 0 then
            some { s with ended := true }
          else if s.download.HasSpaceFor packet.queuedLen then
            some { s with receive := .tryPush packet }
          else none
      | _ => none
  | .tryPush =>
      match s.receive with
      | .tryPush packet =>
          match s.download.tryPushRef packet with
          | (download, true) =>
              some { s with download := download, receive := .start }
          | (download, false) =>
              some { s with download := download, receive := .waitForSpace packet }
      | _ => none

def queueStep (s : ForwardTcp) : QueueEvent → ForwardTcp
  | .uploadPush packet => { s with upload := (s.upload.tryPushRef packet).1 }
  | .downloadPush packet =>
      { s with download := (s.download.tryPushRef packet).1 }
  | .downloadPop => { s with download := s.download.tryPop.1 }

/-- `select` drops both loops as soon as one has returned. -/
def step (s : ForwardTcp) : ForwardEvent → Option ForwardTcp
  | .send e => if s.ended then none else s.sendStep e
  | .receive e => if s.ended then none else s.receiveStep e
  | .queue e => some (s.queueStep e)

end ForwardTcp

/-! ## Runs with a record of bytes and packets -/

structure ForwardRun where
  state : ForwardTcp
  /-- Packets accepted by the upload queue, and those popped from it. -/
  offered : List Packet
  popped : List Packet
  /-- Bytes accepted by the socket, and bytes it delivered. -/
  accepted : List UInt8
  consumed : List UInt8
  /-- Packets accepted by the download queue, and those popped from it. -/
  queued : List (Producer × Packet)
  fetched : List Packet

namespace ForwardRun

def start (upload download : PacketQueue) : ForwardRun :=
  ⟨ForwardTcp.start upload download, [], [], [], [], [], []⟩

def poppedBy (s : ForwardTcp) : ForwardEvent → List Packet
  | .send .pop => s.upload.tryPop.2.toList
  | _ => []

def acceptedBy (s : ForwardTcp) : ForwardEvent → List UInt8
  | .send (.write n) =>
      match s.send with
      | .write (buffer :: _) => buffer.take n
      | _ => []
  | _ => []

def consumedBy : ForwardEvent → List UInt8
  | .receive (.read bytes) => bytes
  | _ => []

def offeredBy (s : ForwardTcp) : ForwardEvent → List Packet
  | .queue (.uploadPush packet) =>
      if (s.upload.tryPushRef packet).2 then [packet] else []
  | _ => []

def queuedBy (s : ForwardTcp) : ForwardEvent → List (Producer × Packet)
  | .receive .tryPush =>
      match s.receive with
      | .tryPush packet =>
          if (s.download.tryPushRef packet).2 then [(.stream, packet)] else []
      | _ => []
  | .queue (.downloadPush packet) =>
      if (s.download.tryPushRef packet).2 then [(.other, packet)] else []
  | _ => []

def fetchedBy (s : ForwardTcp) : ForwardEvent → List Packet
  | .queue .downloadPop => s.download.tryPop.2.toList
  | _ => []

def step (r : ForwardRun) (event : ForwardEvent) : Option ForwardRun :=
  (r.state.step event).map fun state =>
    { state := state
      offered := r.offered ++ offeredBy r.state event
      popped := r.popped ++ poppedBy r.state event
      accepted := r.accepted ++ acceptedBy r.state event
      consumed := r.consumed ++ consumedBy event
      queued := r.queued ++ queuedBy r.state event
      fetched := r.fetched ++ fetchedBy r.state event }

def pushed (r : ForwardRun) : List Packet :=
  (r.queued.filter fun entry => entry.1 == .stream).map Prod.snd

end ForwardRun

/-! ## When a loop can go on -/

def SendReady (send : SendState) (upload : PacketQueue) : SendEvent → Prop
  | .pop => send = .pop ∧ upload.contents ≠ []
  | .write n =>
      ∃ buffer rest, send = .write (buffer :: rest) ∧ 0 < n ∧ n ≤ buffer.length
  | .fault => ∃ buffers, send = .write buffers

def ReceiveReady (receive : ReceiveState) (bufs : ReadBuffers)
    (download : PacketQueue) : ReceiveEvent → Prop
  | .start => receive = .start
  | .read bytes =>
      ∃ request, receive = .read request ∧ bytes ≠ [] ∧
        bytes.length ≤ bufs.requestSize request
  | .fault => ∃ request, receive = .read request
  | .checkSpace =>
      ∃ packet, receive = .waitForSpace packet ∧
        download.HasSpaceFor packet.queuedLen
  | .tryPush => ∃ packet, receive = .tryPush packet

theorem isSome_sendStep (s : ForwardTcp) (e : SendEvent) :
    (s.sendStep e).isSome = true ↔ SendReady s.send s.upload e := by
  cases e with
  | pop =>
      have hnone := @OverwriteQueue.tryPop_eq_none _ _ _ _ s.upload
      cases hsend : s.send with
      | write buffers => simp [ForwardTcp.sendStep, SendReady, hsend]
      | pop =>
          cases hpop : s.upload.tryPop with
          | mk upload item =>
              rw [hpop] at hnone
              cases item with
              | none => simp [ForwardTcp.sendStep, SendReady, hsend, hpop, ← hnone]
              | some packet =>
                  simp [ForwardTcp.sendStep, SendReady, hsend, hpop, ← hnone]
  | write n =>
      cases hsend : s.send with
      | pop => simp [ForwardTcp.sendStep, SendReady, hsend]
      | write buffers =>
          cases buffers with
          | nil => simp [ForwardTcp.sendStep, SendReady, hsend]
          | cons buffer rest =>
              by_cases hn : 0 < n ∧ n ≤ buffer.length
              · simp [ForwardTcp.sendStep, SendReady, hsend, hn]
              · simp only [ForwardTcp.sendStep, hsend, if_neg hn, SendReady]
                constructor
                · intro h
                  cases h
                · rintro ⟨buffer', rest', heq, hn'⟩
                  cases heq
                  exact absurd hn' hn
  | fault =>
      cases hsend : s.send with
      | pop => simp [ForwardTcp.sendStep, SendReady, hsend]
      | write buffers => simp [ForwardTcp.sendStep, SendReady, hsend]

theorem queuedLen_bounds (packet : Packet) :
    ¬(packet.queuedLen = 0 ∨ mailboxBytes < packet.queuedLen ∨
      mailboxDepth = 0) := by
  have hlen := packet.len_le
  simp only [Packet.queuedLen, maxPayload, mailboxBytes, mailboxDepth] at hlen ⊢
  omega

theorem receiveReady_of_step
    {s t : ForwardTcp} {e : ReceiveEvent} (hstep : s.receiveStep e = some t) :
    ReceiveReady s.receive s.bufs s.download e := by
  cases e with
  | start =>
      cases hreceive : s.receive <;>
        simp [ForwardTcp.receiveStep, hreceive] at hstep
      rfl
  | read bytes =>
      cases hreceive : s.receive <;>
        simp only [ForwardTcp.receiveStep, hreceive, reduceCtorEq] at hstep
      next request =>
        split at hstep
        · next hbytes => exact ⟨request, rfl, hbytes⟩
        · cases hstep
  | fault =>
      cases hreceive : s.receive <;>
        simp only [ForwardTcp.receiveStep, hreceive, reduceCtorEq] at hstep
      exact ⟨_, rfl⟩
  | checkSpace =>
      cases hreceive : s.receive with
      | start => simp [ForwardTcp.receiveStep, hreceive] at hstep
      | read request => simp [ForwardTcp.receiveStep, hreceive] at hstep
      | tryPush packet => simp [ForwardTcp.receiveStep, hreceive] at hstep
      | waitForSpace packet =>
          simp only [ForwardTcp.receiveStep, hreceive,
            if_neg (queuedLen_bounds packet)] at hstep
          split at hstep
          · next hspace => exact ⟨packet, rfl, hspace⟩
          · cases hstep
  | tryPush =>
      cases hreceive : s.receive <;>
        simp only [ForwardTcp.receiveStep, hreceive, reduceCtorEq] at hstep
      exact ⟨_, rfl⟩

/-! ## The sending loop -/

def frames (packets : List Packet) : List UInt8 :=
  packets.flatMap fun packet => bridgeFramed packet.payload

theorem frames_append (front back : List Packet) :
    frames (front ++ back) = frames front ++ frames back :=
  List.flatMap_append

@[simp] theorem frames_singleton (packet : Packet) :
    frames [packet] = bridgeFramed packet.payload := by
  simp [frames]

theorem writeFrame_flatten (magic : UInt8 × UInt8) (payload : List UInt8) :
    (writeFrame magic payload).flatten = framed magic payload := by
  unfold writeFrame
  simp only
  split
  · simp [framed]
  · simp [framed]

/-- Between two packets the socket has accepted whole frames; inside one, the
frames before it and a part of its own. -/
inductive Sending : SendState → List Packet → List UInt8 → Prop
  | between (popped : List Packet) : Sending .pop popped (frames popped)
  | inside (done : List Packet) {packet : Packet} {front buffer : List UInt8}
      {rest : List (List UInt8)} (hbuffer : buffer ≠ [])
      (hframe : bridgeFramed packet.payload = front ++ (buffer :: rest).flatten) :
      Sending (.write (buffer :: rest)) (done ++ [packet]) (frames done ++ front)

theorem sending_afterWrite
    (done : List Packet) {packet : Packet} {front : List UInt8}
    {buffers : List (List UInt8)}
    (hframe : bridgeFramed packet.payload = front ++ buffers.flatten) :
    Sending (afterWrite buffers) (done ++ [packet]) (frames done ++ front) := by
  induction buffers with
  | nil =>
      rw [List.flatten_nil, List.append_nil] at hframe
      have hbetween := Sending.between (done ++ [packet])
      rw [frames_append, frames_singleton, hframe] at hbetween
      exact hbetween
  | cons buffer rest ih =>
      cases buffer with
      | nil => exact ih hframe
      | cons b buffer => exact .inside done (List.cons_ne_nil b buffer) hframe

theorem Sending.afterStep
    {s t : ForwardTcp} {popped : List Packet} {accepted : List UInt8}
    {e : SendEvent} (hsending : Sending s.send popped accepted)
    (hstep : s.sendStep e = some t) :
    Sending t.send (popped ++ ForwardRun.poppedBy s (.send e))
        (accepted ++ ForwardRun.acceptedBy s (.send e)) ∧
      (ForwardRun.poppedBy s (.send e)).map QueueCodec.wire ++
          t.upload.contents = s.upload.contents := by
  obtain ⟨upload, download, send, receive, bufs, ended⟩ := s
  cases e with
  | pop =>
      cases hsending with
      | inside => cases hstep
      | between =>
          simp only [ForwardTcp.sendStep] at hstep
          cases hpop : upload.tryPop with
          | mk next item =>
              cases item with
              | none => simp [hpop] at hstep
              | some packet =>
                  simp only [hpop, Option.some.injEq] at hstep
                  have hitem : upload.tryPop.2 = some packet := by rw [hpop]
                  have hcontents := OverwriteQueue.contents_of_tryPop hitem
                  rw [hpop] at hcontents
                  subst hstep
                  have hframe : bridgeFramed packet.payload =
                      [] ++ (writeFrame bridgeFrameMagic packet.payload).flatten := by
                    rw [writeFrame_flatten]
                    rfl
                  refine ⟨?_, ?_⟩
                  · have hnext := sending_afterWrite popped hframe
                    simpa [ForwardRun.poppedBy, ForwardRun.acceptedBy, hpop]
                      using hnext
                  · simp [ForwardRun.poppedBy, hpop, hcontents]
  | write n =>
      cases hsending with
      | between => cases hstep
      | @inside done packet front buffer rest hbuffer hframe =>
          simp only [ForwardTcp.sendStep] at hstep
          split at hstep
          · cases hstep
            refine ⟨?_, rfl⟩
            have hsplit : bridgeFramed packet.payload =
                (front ++ buffer.take n) ++ (buffer.drop n :: rest).flatten := by
              rw [hframe, List.flatten_cons, List.flatten_cons,
                List.append_assoc, ← List.append_assoc (buffer.take n),
                List.take_append_drop]
            have hnext := sending_afterWrite done hsplit
            simpa [ForwardRun.poppedBy, ForwardRun.acceptedBy] using hnext
          · cases hstep
  | fault =>
      cases hsending with
      | between => cases hstep
      | @inside done packet front buffer rest hbuffer hframe =>
          cases hstep
          refine ⟨?_, rfl⟩
          have hsame := Sending.inside done hbuffer hframe
          simpa [ForwardRun.poppedBy, ForwardRun.acceptedBy] using hsame

/-! ## The receiving loop -/

def AtFrame : ReceiveState → Partial → Prop
  | .read request, p => request = p.request
  | _, p => p = Partial.empty

theorem exists_finishPacket
    (kind : UInt8) {buffer : List UInt8} {len : ℕ}
    (hbuffer : buffer.length = maxPayload) (hlen : len ≤ maxPayload) :
    ∃ packet, finishPacket kind buffer len = some packet ∧
      packet.payload = buffer.take len := by
  rw [finishPacket, dif_pos ⟨hbuffer, hlen⟩]
  exact ⟨_, rfl, rfl⟩

/-- What the receiving loop has made of the bytes so far. -/
structure Received (s : ForwardTcp) (consumed : List UInt8)
    (delivered : List Packet) : Prop where
  frames_eq : completeFrames maxPayload consumed = delivered.map Packet.payload
  reading : s.ended = false → ∃ p,
    HasRead maxPayload consumed s.bufs p ∧ AtFrame s.receive p

/-- After any poll of the reader the loop goes on or has ended, and the packet
the poll completed now waits for space; nothing panics. -/
theorem exists_settleRead
    {s : ForwardTcp} {bytes : List UInt8} {delivered : List Packet}
    {next : ReadBuffers × CallStatus} (hwaiting : s.receive.waiting = [])
    (hpolled : Polled maxPayload bytes (delivered.map Packet.payload) next) :
    ∃ t, s.settleRead next = some t ∧
      Received t bytes (delivered ++ t.receive.waiting) := by
  cases hpolled with
  | @parked bufs p hread hframes =>
      refine ⟨_, rfl, ?_, fun _ => ⟨p, hread, rfl⟩⟩
      rw [hframes]
      simp [ReceiveState.waiting]
  | @frame bufs kind len hlen hread hframes =>
      obtain ⟨packet, hpacket, hpayload⟩ := exists_finishPacket reqDataMagic
        hread.tracks.payload_length hlen
      refine ⟨{ s with bufs := bufs, receive := .waitForSpace packet }, ?_, ?_,
        fun _ => ⟨Partial.empty, hread, rfl⟩⟩
      · simp only [ForwardTcp.settleRead, hpacket, Option.map_some]
      · rw [hframes, ← hpayload]
        simp [ReceiveState.waiting]
  | @failed bufs hframes =>
      refine ⟨_, rfl, ?_, fun hended => by cases hended⟩
      rw [hframes, hwaiting, List.append_nil]

def streamBy (s : ForwardTcp) (event : ForwardEvent) : List Packet :=
  ((ForwardRun.queuedBy s event).filter fun entry =>
    entry.1 == .stream).map Prod.snd

/-- While the loops run, an event whose condition holds is taken, and what has
been delivered stays the complete frames of the bytes consumed. -/
theorem Received.exists_step
    {s : ForwardTcp} {consumed : List UInt8} {pushed : List Packet}
    {e : ReceiveEvent} (hended : s.ended = false)
    (hreceived : Received s consumed (pushed ++ s.receive.waiting))
    (hready : ReceiveReady s.receive s.bufs s.download e) :
    ∃ t, s.receiveStep e = some t ∧
      Received t (consumed ++ ForwardRun.consumedBy (.receive e))
        (pushed ++ streamBy s (.receive e) ++ t.receive.waiting) := by
  obtain ⟨hframes, hreading⟩ := hreceived
  obtain ⟨p, hread, hat⟩ := hreading hended
  cases e with
  | start =>
      have hreceive : s.receive = .start := hready
      rw [hreceive] at hat hframes
      have hempty : p = Partial.empty := hat
      subst hempty
      have hfresh : HasRead maxPayload consumed
          { s.bufs with payload := List.replicate maxPayload 0 } Partial.empty :=
        hread.exchange List.length_replicate
      obtain ⟨t, ht, hnext⟩ := exists_settleRead (s := s)
        (by rw [hreceive]; rfl) (.parked hfresh hframes)
      refine ⟨t, ?_, ?_⟩
      · simp only [ForwardTcp.receiveStep, hreceive, hfresh.enter, ht]
      · simpa [ForwardRun.consumedBy, streamBy, ForwardRun.queuedBy,
          ReceiveState.waiting] using hnext
  | read bytes =>
      obtain ⟨request, hreceive, hbytes, hsize⟩ := hready
      rw [hreceive] at hat hframes
      have hrequest : request = p.request := hat
      subst hrequest
      have hpolled := hread.resume hbytes hsize
      rw [hframes] at hpolled
      obtain ⟨t, ht, hnext⟩ := exists_settleRead (s := s)
        (by rw [hreceive]; rfl) hpolled
      refine ⟨t, ?_, ?_⟩
      · simp only [ForwardTcp.receiveStep, hreceive,
          if_pos (And.intro hbytes hsize), ht]
      · simpa [ForwardRun.consumedBy, streamBy, ForwardRun.queuedBy,
          ReceiveState.waiting] using hnext
  | fault =>
      obtain ⟨request, hreceive⟩ := hready
      rw [hreceive] at hframes
      have hpolled : Polled maxPayload consumed (pushed.map Packet.payload)
          (s.bufs.reset, .returned .err) :=
        .failed (by simpa [ReceiveState.waiting] using hframes)
      obtain ⟨t, ht, hnext⟩ := exists_settleRead (s := s)
        (by rw [hreceive]; rfl) hpolled
      refine ⟨t, ?_, ?_⟩
      · simp only [ForwardTcp.receiveStep, hreceive, resume_fault, ht]
      · simpa [ForwardRun.consumedBy, streamBy, ForwardRun.queuedBy,
          ReceiveState.waiting] using hnext
  | checkSpace =>
      obtain ⟨packet, hreceive, hspace⟩ := hready
      rw [hreceive] at hat hframes
      refine ⟨{ s with receive := .tryPush packet }, ?_, ?_,
        fun _ => ⟨p, ?_, hat⟩⟩
      · simp only [ForwardTcp.receiveStep, hreceive,
          if_neg (queuedLen_bounds packet), if_pos hspace]
      · simpa [ForwardRun.consumedBy, streamBy, ForwardRun.queuedBy,
          ReceiveState.waiting] using hframes
      · simpa [ForwardRun.consumedBy] using hread
  | tryPush =>
      obtain ⟨packet, hreceive⟩ := hready
      rw [hreceive] at hat hframes
      rcases hpush : s.download.tryPushRef packet with ⟨download, _ | _⟩
      all_goals
        simp only [ForwardTcp.receiveStep, hreceive, hpush]
        refine ⟨_, rfl, ?_, fun _ => ⟨p, ?_, hat⟩⟩
        · simpa [ForwardRun.consumedBy, streamBy, ForwardRun.queuedBy,
            ReceiveState.waiting, hreceive, hpush] using hframes
        · simpa [ForwardRun.consumedBy] using hread

theorem Received.afterStep
    {s t : ForwardTcp} {consumed : List UInt8} {pushed : List Packet}
    {e : ReceiveEvent} (hended : s.ended = false)
    (hreceived : Received s consumed (pushed ++ s.receive.waiting))
    (hstep : s.receiveStep e = some t) :
    Received t (consumed ++ ForwardRun.consumedBy (.receive e))
      (pushed ++ streamBy s (.receive e) ++ t.receive.waiting) := by
  obtain ⟨u, hu, hnext⟩ := hreceived.exists_step hended
    (receiveReady_of_step hstep)
  rw [hstep] at hu
  cases hu
  exact hnext

theorem Received.isSome_step
    {s : ForwardTcp} {consumed : List UInt8} {pushed : List Packet}
    (hended : s.ended = false)
    (hreceived : Received s consumed (pushed ++ s.receive.waiting))
    (e : ReceiveEvent) :
    (s.receiveStep e).isSome = true ↔
      ReceiveReady s.receive s.bufs s.download e := by
  constructor
  · intro hsome
    obtain ⟨t, hstep⟩ := Option.isSome_iff_exists.mp hsome
    exact receiveReady_of_step hstep
  · intro hready
    obtain ⟨t, hstep, -⟩ := hreceived.exists_step hended hready
    rw [hstep, Option.isSome_some]

/-! ## Both loops -/

theorem sendStep_frame
    {s t : ForwardTcp} {e : SendEvent} (hstep : s.sendStep e = some t) :
    t.download = s.download ∧ t.receive = s.receive ∧ t.bufs = s.bufs ∧
      (t.ended = false → s.ended = false) := by
  unfold ForwardTcp.sendStep at hstep
  repeat' split at hstep
  all_goals first
    | cases hstep
      refine ⟨rfl, rfl, rfl, ?_⟩
      intro hended
      first
        | exact hended
        | cases hended
    | cases hstep

theorem settleRead_frame
    {s t : ForwardTcp} {next : ReadBuffers × CallStatus}
    (hsettle : s.settleRead next = some t) :
    t.upload = s.upload ∧ t.send = s.send ∧ t.download = s.download := by
  unfold ForwardTcp.settleRead at hsettle
  split at hsettle
  · cases hsettle
    exact ⟨rfl, rfl, rfl⟩
  · obtain ⟨packet, -, rfl⟩ := Option.map_eq_some_iff.mp hsettle
    exact ⟨rfl, rfl, rfl⟩
  · cases hsettle
    exact ⟨rfl, rfl, rfl⟩
  · cases hsettle

/-- The receiving loop leaves the upload side alone, and puts in the download
queue what it says. -/
theorem receiveStep_frame
    {s t : ForwardTcp} {e : ReceiveEvent} (hstep : s.receiveStep e = some t) :
    t.upload = s.upload ∧ t.send = s.send ∧
      t.download.contents = s.download.contents ++
        (ForwardRun.queuedBy s (.receive e)).map
          fun entry => QueueCodec.wire entry.2 := by
  have hready := receiveReady_of_step hstep
  have hsettled : ∀ {next : ReadBuffers × CallStatus},
      s.settleRead next = some t →
        t.upload = s.upload ∧ t.send = s.send ∧
          t.download.contents = s.download.contents ++ [] := by
    intro next hsettle
    obtain ⟨hupload, hsend, hdownload⟩ := settleRead_frame hsettle
    exact ⟨hupload, hsend, by rw [hdownload, List.append_nil]⟩
  cases e with
  | start =>
      have hreceive : s.receive = .start := hready
      simp only [ForwardTcp.receiveStep, hreceive] at hstep
      exact hsettled hstep
  | read bytes =>
      obtain ⟨request, hreceive, hbytes, hsize⟩ := hready
      simp only [ForwardTcp.receiveStep, hreceive,
        if_pos (And.intro hbytes hsize)] at hstep
      exact hsettled hstep
  | fault =>
      obtain ⟨request, hreceive⟩ := hready
      simp only [ForwardTcp.receiveStep, hreceive] at hstep
      exact hsettled hstep
  | checkSpace =>
      obtain ⟨packet, hreceive, hspace⟩ := hready
      simp only [ForwardTcp.receiveStep, hreceive, if_neg (queuedLen_bounds packet),
        if_pos hspace, Option.some.injEq] at hstep
      subst hstep
      simp [ForwardRun.queuedBy]
  | tryPush =>
      obtain ⟨packet, hreceive⟩ := hready
      have hcontents := s.download.contents_push packet
      rcases hpush : s.download.tryPushRef packet with ⟨download, _ | _⟩
      all_goals
        rw [hpush] at hcontents
        simp only [ForwardTcp.receiveStep, hreceive, hpush,
          Option.some.injEq] at hstep
        subst hstep
        refine ⟨rfl, rfl, ?_⟩
        simpa [ForwardRun.queuedBy, hreceive, hpush] using hcontents

theorem Received.ofSame
    {s t : ForwardTcp} {consumed : List UInt8} {delivered : List Packet}
    (hreceived : Received s consumed delivered) (hreceive : t.receive = s.receive)
    (hbufs : t.bufs = s.bufs) (hended : t.ended = false → s.ended = false) :
    Received t consumed delivered := by
  refine ⟨hreceived.frames_eq, fun h => ?_⟩
  obtain ⟨p, hread, hat⟩ := hreceived.reading (hended h)
  exact ⟨p, hbufs ▸ hread, hreceive ▸ hat⟩

structure Forwarded (upload download : PacketQueue) (r : ForwardRun) : Prop where
  upload_eq : r.popped.map QueueCodec.wire ++ r.state.upload.contents =
    upload.contents ++ r.offered.map QueueCodec.wire
  download_eq : r.fetched.map QueueCodec.wire ++ r.state.download.contents =
    download.contents ++ r.queued.map fun entry => QueueCodec.wire entry.2
  sending : Sending r.state.send r.popped r.accepted
  received : Received r.state r.consumed (r.pushed ++ r.state.receive.waiting)

namespace Forwarded

variable {upload download : PacketQueue} {r t : ForwardRun}

theorem ofStart (upload download : PacketQueue) :
    Forwarded upload download (ForwardRun.start upload download) where
  upload_eq := by simp [ForwardRun.start, ForwardTcp.start]
  download_eq := by simp [ForwardRun.start, ForwardTcp.start]
  sending := .between []
  received :=
    ⟨rfl, fun _ => ⟨Partial.empty, HasRead.ofStart List.length_replicate, rfl⟩⟩

theorem afterSend
    (hr : Forwarded upload download r) {e : SendEvent}
    (hstep : r.step (.send e) = some t) : Forwarded upload download t := by
  obtain ⟨state, hstate, rfl⟩ := Option.map_eq_some_iff.mp hstep
  simp only [ForwardTcp.step] at hstate
  split at hstate
  · cases hstate
  · obtain ⟨hsending, hupload⟩ := hr.sending.afterStep hstate
    obtain ⟨hdownload, hreceive, hbufs, hended⟩ := sendStep_frame hstate
    refine ⟨?_, ?_, hsending, ?_⟩
    · have hbefore := hr.upload_eq
      rw [← hupload] at hbefore
      simpa [ForwardRun.offeredBy] using hbefore
    · simpa [ForwardRun.fetchedBy, ForwardRun.queuedBy, hdownload]
        using hr.download_eq
    · have hsame := hr.received.ofSame hreceive hbufs hended
      simpa [ForwardRun.consumedBy, ForwardRun.queuedBy, ForwardRun.pushed,
        hreceive] using hsame

theorem afterReceive
    (hr : Forwarded upload download r) {e : ReceiveEvent}
    (hstep : r.step (.receive e) = some t) : Forwarded upload download t := by
  obtain ⟨state, hstate, rfl⟩ := Option.map_eq_some_iff.mp hstep
  simp only [ForwardTcp.step] at hstate
  split at hstate
  · cases hstate
  · next hended =>
    obtain ⟨hupload, hsend, hdownload⟩ := receiveStep_frame hstate
    have hreceived := hr.received.afterStep (Bool.eq_false_of_not_eq_true hended)
      hstate
    refine ⟨?_, ?_, ?_, ?_⟩
    · simpa [ForwardRun.poppedBy, ForwardRun.offeredBy, hupload] using hr.upload_eq
    · have hbefore := hr.download_eq
      simp only [ForwardRun.fetchedBy, List.append_nil, hdownload,
        List.map_append, ← List.append_assoc, hbefore]
    · simpa [ForwardRun.poppedBy, ForwardRun.acceptedBy, hsend] using hr.sending
    · simpa [ForwardRun.pushed, streamBy] using hreceived

theorem afterQueue
    (hr : Forwarded upload download r) {e : QueueEvent}
    (hstep : r.step (.queue e) = some t) : Forwarded upload download t := by
  obtain ⟨state, hstate, rfl⟩ := Option.map_eq_some_iff.mp hstep
  cases hstate
  cases e with
  | uploadPush packet =>
      have hcontents := r.state.upload.contents_push packet
      refine ⟨?_, ?_, ?_, ?_⟩
      · have hbefore := hr.upload_eq
        simp only [ForwardRun.poppedBy, ForwardRun.offeredBy,
          ForwardTcp.queueStep, List.append_nil, hcontents, List.map_append,
          ← List.append_assoc, hbefore]
        split <;> simp
      · simpa [ForwardRun.fetchedBy, ForwardRun.queuedBy, ForwardTcp.queueStep]
          using hr.download_eq
      · simpa [ForwardRun.poppedBy, ForwardRun.acceptedBy, ForwardTcp.queueStep]
          using hr.sending
      · have hsame := hr.received.ofSame
          (t := r.state.queueStep (.uploadPush packet)) rfl rfl id
        simpa [ForwardRun.consumedBy, ForwardRun.queuedBy, ForwardRun.pushed,
          ForwardTcp.queueStep] using hsame
  | downloadPush packet =>
      have hcontents := r.state.download.contents_push packet
      refine ⟨?_, ?_, ?_, ?_⟩
      · simpa [ForwardRun.poppedBy, ForwardRun.offeredBy, ForwardTcp.queueStep]
          using hr.upload_eq
      · have hbefore := hr.download_eq
        simp only [ForwardRun.fetchedBy, ForwardRun.queuedBy,
          ForwardTcp.queueStep, List.append_nil, hcontents, List.map_append,
          ← List.append_assoc, hbefore]
        split <;> simp
      · simpa [ForwardRun.poppedBy, ForwardRun.acceptedBy, ForwardTcp.queueStep]
          using hr.sending
      · have hsame := hr.received.ofSame
          (t := r.state.queueStep (.downloadPush packet)) rfl rfl id
        have hnothing : ((ForwardRun.queuedBy r.state
            (.queue (.downloadPush packet))).filter fun entry =>
              entry.1 == .stream) = [] := by
          simp only [ForwardRun.queuedBy]
          split <;> simp
        simpa [ForwardRun.consumedBy, ForwardRun.pushed, ForwardTcp.queueStep,
          hnothing] using hsame
  | downloadPop =>
      have hcontents := r.state.download.contents_pop
      refine ⟨?_, ?_, ?_, ?_⟩
      · simpa [ForwardRun.poppedBy, ForwardRun.offeredBy, ForwardTcp.queueStep]
          using hr.upload_eq
      · have hbefore := hr.download_eq
        rw [hcontents] at hbefore
        simpa [ForwardRun.fetchedBy, ForwardRun.queuedBy, ForwardTcp.queueStep]
          using hbefore
      · simpa [ForwardRun.poppedBy, ForwardRun.acceptedBy, ForwardTcp.queueStep]
          using hr.sending
      · have hsame := hr.received.ofSame
          (t := r.state.queueStep .downloadPop) rfl rfl id
        simpa [ForwardRun.consumedBy, ForwardRun.queuedBy, ForwardRun.pushed,
          ForwardTcp.queueStep] using hsame

theorem afterStep
    (hr : Forwarded upload download r) {event : ForwardEvent}
    (hstep : r.step event = some t) : Forwarded upload download t := by
  cases event with
  | send e => exact hr.afterSend hstep
  | receive e => exact hr.afterReceive hstep
  | queue e => exact hr.afterQueue hstep

end Forwarded

/-! ## Runs -/

/-- The packets popped from the upload queue are those it accepted, in order,
and the socket has accepted their frames up to a part of the last one. -/
def UploadInOrder (upload : PacketQueue) (r : ForwardRun) : Prop :=
  r.popped.map QueueCodec.wire ++ r.state.upload.contents =
      upload.contents ++ r.offered.map QueueCodec.wire ∧
    ∃ done current part, r.popped = done ++ current ∧ current.length ≤ 1 ∧
      r.accepted = frames done ++ part ∧ part <+: frames current

/-- The stream's packets in the download queue, with at most one that still
waits for space, are the complete frames of the bytes the socket delivered;
while the loops run these bytes are nothing but these frames and a frame in
progress. -/
def DownloadInOrder (download : PacketQueue) (r : ForwardRun) : Prop :=
  r.fetched.map QueueCodec.wire ++ r.state.download.contents =
      download.contents ++ r.queued.map (fun entry => QueueCodec.wire entry.2) ∧
    ∃ waiting : List Packet, waiting.length ≤ 1 ∧
      (r.pushed ++ waiting).map Packet.payload =
        completeFrames maxPayload r.consumed ∧
      (r.state.ended = false → ∃ p : Partial, p.Incomplete maxPayload ∧
        r.consumed = frames (r.pushed ++ waiting) ++ partialBytes p)

/-- Each direction is disabled by its own condition only. -/
def Independent (r : ForwardRun) : Prop :=
  (∀ e, (r.step (.send e)).isSome = true ↔
      SendReady r.state.send r.state.upload e) ∧
    ∀ e, (r.step (.receive e)).isSome = true ↔
      ReceiveReady r.state.receive r.state.bufs r.state.download e

theorem Sending.inOrder
    {send : SendState} {popped : List Packet} {accepted : List UInt8}
    (hsending : Sending send popped accepted) :
    ∃ done current part, popped = done ++ current ∧ current.length ≤ 1 ∧
      accepted = frames done ++ part ∧ part <+: frames current := by
  cases hsending with
  | between =>
      exact ⟨popped, [], [], by simp, by simp, by simp, List.prefix_rfl⟩
  | @inside done packet front buffer rest hbuffer hframe =>
      refine ⟨done, [packet], front, rfl, Nat.le_refl 1, rfl, ?_⟩
      rw [frames_singleton, hframe]
      exact List.prefix_append _ _

theorem Received.inOrder
    {s : ForwardTcp} {consumed : List UInt8} {delivered : List Packet}
    (hreceived : Received s consumed delivered) (hended : s.ended = false) :
    ∃ p : Partial, p.Incomplete maxPayload ∧
      consumed = frames delivered ++ partialBytes p := by
  obtain ⟨p, hread, -⟩ := hreceived.reading hended
  refine ⟨p, hread.tracks.incomplete, ?_⟩
  have hbytes := hread.bytes_eq
  rwa [hreceived.frames_eq, List.flatMap_map] at hbytes

/-- At every point of every run both directions are in order, and as long as
no loop has returned an error, neither keeps the other from going on. -/
theorem forward_in_order
    (upload download : PacketQueue) (events : List ForwardEvent) (r : ForwardRun)
    (hreach : Runs.Reaches ForwardRun.step (ForwardRun.start upload download)
      events r) :
    UploadInOrder upload r ∧ DownloadInOrder download r ∧
      (r.state.ended = false → Independent r) := by
  have hr : Forwarded upload download r :=
    hreach.invariant (fun _ _ _ h hstep => h.afterStep hstep)
      (Forwarded.ofStart upload download)
  refine ⟨⟨hr.upload_eq, hr.sending.inOrder⟩, ⟨hr.download_eq, ?_⟩, ?_⟩
  · refine ⟨r.state.receive.waiting, ?_, hr.received.frames_eq.symm,
      hr.received.inOrder⟩
    cases r.state.receive <;> simp [ReceiveState.waiting]
  · intro hended
    refine ⟨fun e => ?_, fun e => ?_⟩
    · rw [← isSome_sendStep]
      simp [ForwardRun.step, ForwardTcp.step, hended]
    · rw [← hr.received.isSome_step hended]
      simp [ForwardRun.step, ForwardTcp.step, hended]

def emptyQueue : PacketQueue := OverwriteQueue.empty (by decide)

def helloPacket : Packet :=
  Packet.finish reqDataMagic (FixedBytes.padded (ascii "hello")) 5 (by decide)

/-- A packet is popped for sending while the other loop waits for bytes. -/
theorem forward_in_order_hello :
    ∃ r, Runs.Reaches ForwardRun.step (ForwardRun.start emptyQueue emptyQueue)
        [.receive .start, .queue (.uploadPush helloPacket), .send .pop] r ∧
      UploadInOrder emptyQueue r ∧ DownloadInOrder emptyQueue r ∧
      (r.state.ended = false → Independent r) := by
  have hempty : emptyQueue.contents = [] := OverwriteQueue.contents_empty (by decide)
  have haccepted : (emptyQueue.tryPushRef helloPacket).2 = true := by
    rw [OverwriteQueue.tryPushRef_accepted]
    exact ⟨by decide, by decide, by decide⟩
  obtain ⟨reading, hstart, hreading⟩ : ∃ reading,
      (ForwardRun.start emptyQueue emptyQueue).step (.receive .start) =
        some reading ∧
      reading.state.upload = emptyQueue ∧ reading.state.send = .pop ∧
      reading.state.ended = false := ⟨_, rfl, rfl, rfl, rfl⟩
  obtain ⟨hupload, hsend, hended⟩ := hreading
  obtain ⟨queued, hpush, hqueued⟩ : ∃ queued,
      reading.step (.queue (.uploadPush helloPacket)) = some queued ∧
      queued.state = reading.state.queueStep (.uploadPush helloPacket) :=
    ⟨_, rfl, rfl⟩
  have hready : SendReady queued.state.send queued.state.upload .pop := by
    rw [hqueued]
    refine ⟨hsend, ?_⟩
    show (reading.state.upload.tryPushRef helloPacket).1.contents ≠ []
    rw [hupload, OverwriteQueue.contents_of_accepted haccepted, hempty]
    simp
  obtain ⟨state, hstate⟩ := Option.isSome_iff_exists.mp
    ((isSome_sendStep queued.state .pop).mpr hready)
  have hpop : queued.state.step (.send .pop) = some state := by
    have hrunning : queued.state.ended = false := by
      rw [hqueued]
      exact hended
    rw [ForwardTcp.step, hrunning, if_neg Bool.false_ne_true, hstate]
  have hreach : Runs.Reaches ForwardRun.step
      (ForwardRun.start emptyQueue emptyQueue)
      [.receive .start, .queue (.uploadPush helloPacket), .send .pop]
      ((queued.step (.send .pop)).getD queued) := by
    simp only [Runs.reaches_cons, Runs.reaches_nil]
    refine ⟨reading, hstart, queued, hpush, _, ?_, rfl⟩
    rw [ForwardRun.step, hpop]
    rfl
  exact ⟨_, hreach, forward_in_order emptyQueue emptyQueue _ _ hreach⟩

end UartMailbox
end PicoFi
