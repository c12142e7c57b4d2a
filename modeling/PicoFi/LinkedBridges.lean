import PicoFi.ForwardTcp
import PicoFi.LinkHandshake
import PicoFi.PrefixCode
import PicoFi.SessionDelivery

/-!
# Two bridges on one link

A bridge connects to its peer, completes the handshake and runs its session on
the same connection.  What a session writes is a stream of framed payloads,
whatever the upstream bus, and what the other session queues is a prefix of
these payloads: nothing of the handshake reaches a session, and no payload is
lost, repeated or reordered on the way.
-/

namespace PicoFi
namespace Link

open Buffer LinkFrame BridgeFrame PicoFi.Stream

/-! ## Frames as a code -/

def Fits (payload : List UInt8) : Prop := payload.length < 65536

theorem framed_prefixCode (pair : UInt8 × UInt8) : PrefixCode (framed pair) Fits where
  nonempty payload := by simp [framed]
  cut {x y back rest} hx hy hprefix := by
    rw [framed_append_eq, framed_append_eq] at hprefix
    simp only [List.cons_prefix_cons] at hprefix
    obtain ⟨-, -, hlow, hhigh, hpayload⟩ := hprefix
    have hlength : x.length = y.length := by
      rw [← u16le_ofNat hx, ← u16le_ofNat hy, hlow, hhigh]
    have hsame : x = y := by
      have htake := List.prefix_iff_eq_take.mp ((List.prefix_append _ _).trans hpayload)
      rwa [hlength, List.take_left' rfl] at htake
    rw [hsame] at hpayload
    exact ⟨hsame, (List.prefix_append_right_inj y).mp hpayload⟩

abbrev stream (payloads : List (List UInt8)) : List UInt8 :=
  payloads.flatMap bridgeFramed

theorem bridgeFramed_prefixCode : PrefixCode bridgeFramed Fits :=
  framed_prefixCode bridgeFrameMagic

/-- A frame in progress holds no whole frame. -/
theorem no_frame_in_progress {cap : ℕ} {p : Partial} (hp : p.Incomplete cap)
    {rest : List (List UInt8)} (hrest : ∀ payload ∈ rest, Fits payload)
    (hbytes : partialBytes p = stream rest) : rest = [] := by
  cases rest with
  | nil => rfl
  | cons payload rest =>
      exfalso
      obtain ⟨header, bytes⟩ := p
      have hle := hp.header_le
      simp only at hle
      have hlong : 4 ≤ (partialBytes ⟨header, bytes⟩).length := by
        rw [hbytes, stream, List.flatMap_cons, bridgeFramed, List.length_append,
          length_framed, frameHeaderSize]
        omega
      have hcomplete : header.length = 4 := by
        by_contra hshort
        have hnil : bytes = [] := hp.payload_nil (lt_of_le_of_ne hle hshort)
        rw [hnil, partialBytes, List.append_nil] at hlong
        exact hshort (le_antisymm hle hlong)
      obtain ⟨m0, m1, lo, hi, rfl⟩ := List.length_eq_four.mp hcomplete
      have hlt : bytes.length < u16le lo hi := hp.payload_lt rfl
      have hframe : m0 :: m1 :: lo :: hi :: bytes =
          framed bridgeFrameMagic payload ++ stream rest := hbytes
      rw [framed_append_eq] at hframe
      simp only [List.cons.injEq] at hframe
      obtain ⟨-, -, rfl, rfl, rfl⟩ := hframe
      rw [u16le_ofNat (hrest payload (by simp)), List.length_append] at hlt
      omega

theorem mem_decode_fits {magic : MagicPairs} {resync : Bool} {cap : ℕ}
    {arrivals : List Arrival} {p : Partial} {kind : UInt8} {payload : List UInt8}
    (hmem : .ok kind payload ∈ (p.decode magic resync cap arrivals).2) :
    Fits payload := by
  have hfeed : ∀ (p : Partial) (a : Arrival),
      .ok kind payload ∈ (p.feed magic resync cap a).2 → Fits payload := by
    intro p a ha
    cases a with
    | fault => simp [Partial.feed] at ha
    | byte b =>
        simp only [Partial.feed] at ha
        split at ha
        · simp only [Partial.feedHeader] at ha
          repeat' split at ha
          all_goals simp at ha
          obtain ⟨-, rfl⟩ := ha
          simp [Fits]
        · simp only [Partial.feedPayload] at ha
          split at ha
          · next hlength =>
            simp only [List.mem_singleton, FrameResult.ok.injEq] at ha
            rw [Fits, ha.2, hlength, Partial.length, u16le]
            have hlo := (p.header.getD 2 0).toNat_lt
            have hhi := (p.header.getD 3 0).toNat_lt
            omega
          · simp at ha
  induction arrivals generalizing p with
  | nil => simp at hmem
  | cons a arrivals ih =>
      simp only [Partial.decode, List.mem_append] at hmem
      rcases hmem with hfirst | hrest
      · exact hfeed p a hfirst
      · exact ih hrest

theorem completeFrames_fits {cap : ℕ} {bytes payload : List UInt8}
    (hmem : payload ∈ completeFrames cap bytes) : Fits payload := by
  rw [completeFrames, List.mem_filterMap] at hmem
  obtain ⟨result, hresult, hpayload⟩ := hmem
  cases result with
  | err => simp [okPayload] at hpayload
  | ok kind bytes =>
      cases hpayload
      exact mem_decode_fits hresult

/-! ## A session as one end of a link -/

/-- What the bytes of a session have to do with its payloads. -/
structure Framing (sent taken : List UInt8)
    (written delivered waiting : List (List UInt8)) (idle running : Prop) :
    Prop where
  sent_prefix : sent <+: stream written
  sent_whole : idle → sent = stream written
  taken_prefix : stream delivered <+: taken
  taken_whole : running → ∃ cap p, Partial.Incomplete cap p ∧
    taken = stream (delivered ++ waiting) ++ partialBytes p
  written_fits : ∀ payload ∈ written, Fits payload
  delivered_fits : ∀ payload ∈ delivered ++ waiting, Fits payload

structure SessionEnd (σ ε : Type) extends Wired.Component σ ε UInt8 where
  start : σ
  /-- Payloads that were handed to a write. -/
  written : σ → List (List UInt8)
  /-- Payloads of the network that were queued for the upstream bus. -/
  delivered : σ → List (List UInt8)
  /-- The payload that was read and is not queued yet. -/
  waiting : σ → List (List UInt8)
  /-- No write is in progress. -/
  Idle : σ → Prop
  /-- The session has not ended. -/
  Running : σ → Prop
  framing : ∀ {es s}, Runs.Reaches step start es s →
    Framing (sent s) (taken s) (written s) (delivered s) (waiting s) (Idle s) (Running s)

section Links

variable {σ τ ε δ : Type}

abbrev LinkState (σ : Type) := Wired.Component.Phases Handshake σ

/-- The handshake and behind it the session, on one socket. -/
def linkEnd (a : SessionEnd σ ε) :
    Wired.Component (LinkState σ) (HandshakeEvent ⊕ ε) UInt8 :=
  Handshake.component.andThen a.toComponent
    fun h => if h.Succeeded then some a.start else none

def linkStart (initiator : Bool) : LinkState σ :=
  .start (Handshake.start initiator linkHandshakeMagic)

def startLink : LinkState σ × LinkState τ := (linkStart true, linkStart false)

abbrev linkStep (a : SessionEnd σ ε) (b : SessionEnd τ δ) :=
  Wired.step (linkEnd a) (linkEnd b)

/-- Payloads written by the session, if it has begun. -/
def SessionEnd.sending (a : SessionEnd σ ε) (p : LinkState σ) : List (List UInt8) :=
  p.second.elim [] a.written

def SessionEnd.receiving (a : SessionEnd σ ε) (p : LinkState σ) : List (List UInt8) :=
  p.second.elim [] a.delivered

/-- A session reads only what the session of the other end has sent, what it has
queued is a prefix of what that one has written, and all of it once nothing is
under way. -/
structure Carried (a : SessionEnd σ ε) (b : SessionEnd τ δ) (p : LinkState σ)
    (q : LinkState τ) : Prop where
  session_bytes : ∀ t, q.second = some t → b.taken t <+: p.second.elim [] a.sent
  in_order : b.receiving q <+: a.sending p
  complete : ∀ s t, p.second = some s → q.second = some t → a.Idle s → b.Running t →
    b.taken t = a.sent s → b.delivered t ++ b.waiting t = a.written s

theorem exists_handshake {a : SessionEnd σ ε} {initiator : Bool}
    {es : List (HandshakeEvent ⊕ ε)} {p : LinkState σ}
    (hreach : Runs.Reaches (linkEnd a).step (linkStart initiator) es p) :
    Handshake.Exchanging initiator linkHandshakeMagic p.first ∧
      ∀ s, p.second = some s → p.first.Succeeded ∧
        ∃ es, Runs.Reaches a.step a.start es s := by
  have hphased := Wired.Component.phased_of_reaches hreach
  obtain ⟨front, hfront⟩ := hphased.first_run
  refine ⟨Handshake.exchanging_of_reaches hfront, fun s hs => ?_⟩
  obtain ⟨s₀, es, hs₀, hrun⟩ := hphased.second_run s hs
  obtain ⟨hdone, hstart⟩ := Option.ite_none_right_eq_some.mp hs₀
  cases hstart
  exact ⟨hdone, es, hrun⟩

theorem exists_framing {a : SessionEnd σ ε} {s : σ}
    (hrun : ∃ es, Runs.Reaches a.step a.start es s) :
    Framing (a.sent s) (a.taken s) (a.written s) (a.delivered s) (a.waiting s)
      (a.Idle s) (a.Running s) := by
  obtain ⟨es, hes⟩ := hrun
  exact a.framing hes

/-- Behind the handshake a session takes only what the other session sent. -/
theorem session_taken_prefix
    {a : SessionEnd σ ε} {b : SessionEnd τ δ} {initiator initiator' : Bool}
    {es : List (HandshakeEvent ⊕ ε)} {es' : List (HandshakeEvent ⊕ δ)}
    {p : LinkState σ} {q : LinkState τ}
    (hp : Runs.Reaches (linkEnd a).step (linkStart initiator) es p)
    (hq : Runs.Reaches (linkEnd b).step (linkStart initiator') es' q)
    (htaken : (linkEnd b).taken q <+: (linkEnd a).sent p) {t : τ}
    (ht : q.second = some t) : b.taken t <+: p.second.elim [] a.sent := by
  obtain ⟨hexchanging, hopen⟩ := exists_handshake hp
  obtain ⟨hexchanging', hopen'⟩ := exists_handshake hq
  obtain ⟨-, hbuf, hlength⟩ := hexchanging'.of_succeeded (hopen' t ht).1
  have hprefix : q.first.buf ++ b.taken t <+:
      p.first.accepted ++ p.second.elim [] a.sent := by
    have htaken' : q.first.buf ++ q.second.elim [] b.taken <+:
        p.first.accepted ++ p.second.elim [] a.sent := htaken
    rwa [ht] at htaken'
  have hshort := hexchanging.accepted_prefix.length_le
  refine Wired.prefix_of_append_prefix hprefix (by rw [hbuf]; exact hshort) ?_
  intro hlt
  cases hsecond : p.second with
  | none => rfl
  | some s =>
      have hwhole := (hexchanging.of_succeeded (hopen s hsecond).1).1
      rw [hwhole, hbuf] at hlt
      exact absurd hlt (Nat.lt_irrefl _)

theorem carried_of_reaches
    {a : SessionEnd σ ε} {b : SessionEnd τ δ} {initiator initiator' : Bool}
    {es : List (HandshakeEvent ⊕ ε)} {es' : List (HandshakeEvent ⊕ δ)}
    {p : LinkState σ} {q : LinkState τ}
    (hp : Runs.Reaches (linkEnd a).step (linkStart initiator) es p)
    (hq : Runs.Reaches (linkEnd b).step (linkStart initiator') es' q)
    (htaken : (linkEnd b).taken q <+: (linkEnd a).sent p) : Carried a b p q := by
  obtain ⟨-, hopen⟩ := exists_handshake hp
  obtain ⟨-, hopen'⟩ := exists_handshake hq
  refine ⟨fun t ht => session_taken_prefix hp hq htaken ht, ?_, ?_⟩
  · cases ht : q.second with
    | none => simp [SessionEnd.receiving, ht]
    | some t =>
        have hframing := exists_framing (hopen' t ht).2
        have hbytes := session_taken_prefix hp hq htaken ht
        have hdelivered := hframing.taken_prefix.trans hbytes
        have hfits : ∀ payload ∈ b.delivered t, Fits payload :=
          fun payload h => hframing.delivered_fits payload (List.mem_append_left _ h)
        simp only [SessionEnd.receiving, SessionEnd.sending, ht, Option.elim_some]
        cases hs : p.second with
        | none =>
            rw [hs, Option.elim_none, ← List.append_nil (stream _)] at hdelivered
            exact @PrefixCode.items_prefix _ _ _ _ bridgeFramed_prefixCode _ [] _ hfits
              (by simp) hdelivered
        | some s =>
            have hframing' := exists_framing (hopen s hs).2
            rw [hs, Option.elim_some, ← List.append_nil (stream _)] at hdelivered
            exact bridgeFramed_prefixCode.items_prefix hfits
              hframing'.written_fits (hdelivered.trans hframing'.sent_prefix)
  · intro s t hs ht hidle hrunning hall
    have hframing := exists_framing (hopen s hs).2
    have hframing' := exists_framing (hopen' t ht).2
    obtain ⟨cap, p, hincomplete, hbytes⟩ := hframing'.taken_whole hrunning
    have hfits := hframing'.delivered_fits
    generalize b.delivered t ++ b.waiting t = read at hbytes hfits
    have hsame : stream read ++ partialBytes p = stream (a.written s) := by
      rw [← hbytes, hall, hframing.sent_whole hidle]
    have hprefix : stream read ++ partialBytes p <+: stream (a.written s) := by
      rw [hsame]
    obtain ⟨rest, hrest, -⟩ := bridgeFramed_prefixCode.exists_rest hfits
      hframing.written_fits hprefix
    have hlater : partialBytes p = stream rest := by
      have hsplit : stream (read ++ rest) = stream read ++ stream rest :=
        List.flatMap_append
      rw [hrest, hsplit] at hsame
      exact List.append_cancel_left hsame
    have hnothing := no_frame_in_progress hincomplete (fun payload h =>
      hframing.written_fits payload (hrest ▸ List.mem_append_right _ h)) hlater
    rw [hrest, hnothing, List.append_nil]

end Links

/-! ## The session of the UART bridge -/

section Uart

open UartMailbox Mailbox

theorem packet_fits (packet : Packet) : Fits packet.payload := by
  have hlen := packet.len_le
  simp only [Fits, Packet.length_payload, maxPayload] at hlen ⊢
  omega

theorem stream_payloads (packets : List Packet) :
    stream (packets.map Packet.payload) = frames packets := by
  rw [stream, frames, List.flatMap_map]

/-- The step that ends the session, or comes after, queues nothing of the
network. -/
theorem pushed_of_ended {r t : ForwardRun} {e : ForwardEvent}
    (hstep : r.step e = some t) (hended : t.state.ended = true) :
    t.pushed = r.pushed := by
  obtain ⟨state, hstate, rfl⟩ := Option.map_eq_some_iff.mp hstep
  cases e with
  | send e => simp [ForwardRun.pushed, ForwardRun.queuedBy]
  | queue e =>
      cases e with
      | uploadPush packet => simp [ForwardRun.pushed, ForwardRun.queuedBy]
      | downloadPop => simp [ForwardRun.pushed, ForwardRun.queuedBy]
      | downloadPush packet =>
          simp only [ForwardRun.pushed, ForwardRun.queuedBy]
          split <;> simp
  | receive e =>
      cases e with
      | tryPush =>
          simp only [ForwardTcp.step] at hstate
          split at hstate
          · cases hstate
          · next hrunning =>
            exfalso
            obtain ⟨packet, hreceive⟩ := receiveReady_of_step hstate
            rcases hpush : r.state.download.tryPushRef packet with ⟨download, _ | _⟩
            all_goals
              simp only [ForwardTcp.receiveStep, hreceive, hpush,
                Option.some.injEq] at hstate
              subst hstate
              exact hrunning hended
      | start => simp [ForwardRun.pushed, ForwardRun.queuedBy]
      | read bytes => simp [ForwardRun.pushed, ForwardRun.queuedBy]
      | fault => simp [ForwardRun.pushed, ForwardRun.queuedBy]
      | checkSpace => simp [ForwardRun.pushed, ForwardRun.queuedBy]

theorem consumed_mono {r t : ForwardRun} {e : ForwardEvent}
    (hstep : r.step e = some t) : r.consumed <+: t.consumed := by
  obtain ⟨state, -, rfl⟩ := Option.map_eq_some_iff.mp hstep
  exact List.prefix_append _ _

/-- The forwarding invariant and, whether the session runs or has ended, the
frames behind the queued packets. -/
structure Delivered (upload download : PacketQueue) (r : ForwardRun) : Prop where
  forwarded : Forwarded upload download r
  pushed_prefix : frames r.pushed <+: r.consumed

theorem Delivered.afterStep {upload download : PacketQueue} {r t : ForwardRun}
    (hr : Delivered upload download r) {e : ForwardEvent}
    (hstep : r.step e = some t) : Delivered upload download t := by
  have hnext := hr.forwarded.afterStep hstep
  refine ⟨hnext, ?_⟩
  cases hended : t.state.ended with
  | true =>
      rw [pushed_of_ended hstep hended]
      exact hr.pushed_prefix.trans (consumed_mono hstep)
  | false =>
      obtain ⟨p, -, hconsumed⟩ := hnext.received.inOrder hended
      rw [hconsumed, frames_append, List.append_assoc]
      exact List.prefix_append _ _

theorem delivered_of_reaches {upload download : PacketQueue}
    {es : List ForwardEvent} {r : ForwardRun}
    (hreach : Runs.Reaches ForwardRun.step (ForwardRun.start upload download) es r) :
    Delivered upload download r :=
  hreach.invariant (fun _ _ _ h hstep => h.afterStep hstep)
    ⟨Forwarded.ofStart upload download, List.prefix_rfl⟩

theorem accepted_of_idle {popped : List Packet} {accepted : List UInt8}
    (hsending : Sending .pop popped accepted) : accepted = frames popped := by
  cases hsending
  rfl

/-- `network_session` over the two mailboxes. -/
def uartSession (upload download : PacketQueue) : SessionEnd ForwardRun ForwardEvent where
  step := ForwardRun.step
  sent := ForwardRun.accepted
  taken := ForwardRun.consumed
  sent_mono {s e t} hstep := by
    obtain ⟨state, -, rfl⟩ := Option.map_eq_some_iff.mp hstep
    exact List.prefix_append _ _
  start := ForwardRun.start upload download
  written r := r.popped.map Packet.payload
  delivered r := r.pushed.map Packet.payload
  waiting r := r.state.receive.waiting.map Packet.payload
  Idle r := r.state.send = .pop
  Running r := r.state.ended = false
  framing {es r} hreach := by
    obtain ⟨hr, hpushed⟩ := delivered_of_reaches hreach
    constructor
    · obtain ⟨done, current, part, hpopped, -, haccepted, hpart⟩ := hr.sending.inOrder
      rw [stream_payloads, hpopped, haccepted, frames_append]
      exact (List.prefix_append_right_inj _).mpr hpart
    · intro hidle
      have hsending := hr.sending
      rw [hidle] at hsending
      rw [stream_payloads]
      exact accepted_of_idle hsending
    · rw [stream_payloads]
      exact hpushed
    · intro hrunning
      obtain ⟨p, hincomplete, hconsumed⟩ := hr.received.inOrder hrunning
      refine ⟨maxPayload, p, hincomplete, ?_⟩
      rw [← List.map_append, stream_payloads, hconsumed]
    · intro payload hpayload
      obtain ⟨packet, -, rfl⟩ := List.mem_map.mp hpayload
      exact packet_fits packet
    · intro payload hpayload
      rw [← List.map_append] at hpayload
      obtain ⟨packet, -, rfl⟩ := List.mem_map.mp hpayload
      exact packet_fits packet

end Uart

/-! ## The sessions of the I2C and the SPI bridge -/

section Buses

open Bridge Mailbox

variable {T : Type} [QueueCodec T] {N B : ℕ}

/-- A session with a record of the payloads it wrote and of the bytes the
socket accepted. -/
structure SocketRun (T : Type) [QueueCodec T] (N B : ℕ) where
  run : SessionRun T N B
  written : List (List UInt8)
  accepted : List UInt8

namespace SocketRun

def start (kind : SessionKind T N B) (requests responses : OverwriteQueue T N B) :
    SocketRun T N B :=
  ⟨SessionRun.start kind requests responses, [], []⟩

def writtenBy (kind : SessionKind T N B) (s : BridgeSession T N B) :
    SessionEvent T → List (List UInt8)
  | .request runtime =>
      match s.requests.tryPop.2.bind (kind.handleRequest runtime) with
      | some (.writeBridgeFrame payload) => [payload]
      | _ => []
  | _ => []

def acceptedBy (s : BridgeSession T N B) : SessionEvent T → List UInt8
  | .write n =>
      match s.state with
      | .write (buffer :: _) => buffer.take n
      | _ => []
  | _ => []

def step (kind : SessionKind T N B) (r : SocketRun T N B) (event : SessionEvent T) :
    Option (SocketRun T N B) :=
  (r.run.step kind event).map fun run =>
    { run := run
      written := r.written ++ writtenBy kind r.run.session event
      accepted := r.accepted ++ acceptedBy r.run.session event }

end SocketRun

end Buses

section Writes

open Bridge Mailbox

variable {T : Type}

/-- The bytes of the frame being written that are still to be accepted. -/
def pending : SessionState T → List UInt8
  | .write buffers => buffers.flatten
  | _ => []

def Ended (state : SessionState T) : Prop := ∃ reason, state = .ended reason

@[simp] theorem pending_afterWrite (buffers : List (List UInt8)) :
    pending (Bridge.afterWrite buffers : SessionState T) = buffers.flatten := by
  induction buffers with
  | nil => rfl
  | cons buffer rest ih =>
      cases buffer with
      | nil => exact ih
      | cons b buffer => rfl

@[simp] theorem pending_afterPoll (status : CallStatus) :
    pending (SessionKind.afterPoll status : SessionState T) = [] := by
  cases status with
  | returned outcome => cases outcome <;> rfl
  | awaiting request => rfl
  | panicked => rfl

/-- While the session runs the accepted bytes and the pending ones are whole
frames; afterwards the accepted ones may be cut anywhere. -/
structure Writing (state : SessionState T) (written : List (List UInt8))
    (accepted : List UInt8) : Prop where
  whole : ¬Ended state → accepted ++ pending state = stream written
  cut : accepted <+: stream written
  fits : ∀ payload ∈ written, Fits payload

variable [QueueCodec T] {N B : ℕ} {kind : SessionKind T N B}
variable {s t : BridgeSession T N B}
variable {written : List (List UInt8)} {accepted : List UInt8}

theorem pending_deliver (kind : SessionKind T N B) (s : BridgeSession T N B)
    (len : ℕ) : pending (kind.deliver s len).state = [] := by
  unfold SessionKind.deliver
  split
  · rfl
  · split <;> rfl

/-- Where a step neither takes a request nor writes, what is pending stays. -/
theorem pending_of_quiet {e : SessionEvent T} (hstep : kind.step s e = some t)
    (hrequest : ∀ runtime, e ≠ .request runtime) (hwrite : ∀ n, e ≠ .write n)
    (hrunning : ¬Ended t.state) :
    ¬Ended s.state ∧ pending t.state = pending s.state := by
  obtain ⟨requests, responses, state, bufs⟩ := s
  cases e with
  | request runtime => exact absurd rfl (hrequest runtime)
  | write n => exact absurd rfl (hwrite n)
  | busRequest item =>
      cases hstep
      exact ⟨hrunning, rfl⟩
  | busPop =>
      cases hstep
      exact ⟨hrunning, rfl⟩
  | writeFault =>
      cases state <;> simp only [SessionKind.step, reduceCtorEq] at hstep
      cases hstep
      exact absurd ⟨_, rfl⟩ hrunning
  | checkSpace =>
      cases state <;> simp only [SessionKind.step, reduceCtorEq] at hstep
      split at hstep <;> cases hstep <;> exact ⟨by simp [Ended], rfl⟩
  | space =>
      cases state <;> simp only [SessionKind.step, reduceCtorEq] at hstep
      split at hstep <;> cases hstep
      exact ⟨by simp [Ended], rfl⟩
  | deliver =>
      cases state <;> simp only [SessionKind.step, reduceCtorEq] at hstep
      cases hstep
      exact ⟨by simp [Ended], pending_deliver kind _ _⟩
  | pushSpace =>
      cases state <;> simp only [SessionKind.step, reduceCtorEq] at hstep
      split at hstep <;> cases hstep
      exact ⟨by simp [Ended], rfl⟩
  | tryPush =>
      cases state <;> simp only [SessionKind.step, reduceCtorEq] at hstep
      split at hstep <;> cases hstep <;> exact ⟨by simp [Ended], rfl⟩
  | call =>
      cases state with
      | select read =>
          cases read <;> simp only [SessionKind.step, reduceCtorEq] at hstep
          cases hstep
          exact ⟨by simp [Ended], pending_afterPoll _⟩
      | _ => simp [SessionKind.step] at hstep
  | read bytes =>
      cases state with
      | select read =>
          cases read <;> simp only [SessionKind.step, reduceCtorEq] at hstep
          split at hstep <;> cases hstep
          exact ⟨by simp [Ended], pending_afterPoll _⟩
      | _ => simp [SessionKind.step] at hstep
  | readFault =>
      cases state with
      | select read =>
          cases read <;> simp only [SessionKind.step, reduceCtorEq] at hstep
          cases hstep
          exact ⟨by simp [Ended], pending_afterPoll _⟩
      | _ => simp [SessionKind.step] at hstep

/-- A taken request makes pending what it hands to the write. -/
theorem Writing.afterRequest (hw : Writing s.state written accepted)
    {runtime : CommandRuntime} (hstep : kind.step s (.request runtime) = some t) :
    Writing t.state (written ++ SocketRun.writtenBy kind s (.request runtime))
      accepted := by
  have hidle : ¬Ended s.state ∧ pending s.state = [] ∧
      kind.takeRequest s runtime = some t := by
    cases hstate : s.state with
    | waitForSpace =>
        simp only [SessionKind.step, hstate] at hstep
        exact ⟨by simp [Ended], rfl, hstep⟩
    | select read =>
        simp only [SessionKind.step, hstate] at hstep
        exact ⟨by simp [Ended], rfl, hstep⟩
    | _ => simp [SessionKind.step, hstate] at hstep
  obtain ⟨hrunning, hnothing, htake⟩ := hidle
  have hwhole := hw.whole hrunning
  rw [hnothing, List.append_nil] at hwhole
  simp only [SessionKind.takeRequest] at htake
  cases hpop : s.requests.tryPop with
  | mk requests item =>
      cases item with
      | none => simp [hpop] at htake
      | some request =>
          simp only [hpop, Option.some.injEq] at htake
          subst htake
          obtain ⟨effect, heffect, hfits⟩ := kind.handleRequest_fits runtime request
          simp only [SocketRun.writtenBy, hpop, Option.bind_some, heffect]
          cases effect with
          | none =>
              simp only [SessionKind.afterRequest, List.append_nil]
              exact ⟨fun _ => by simpa [pending] using hwhole, hw.cut, hw.fits⟩
          | respond item =>
              simp only [SessionKind.afterRequest, List.append_nil]
              refine ⟨fun _ => ?_, hw.cut, hw.fits⟩
              split <;> simpa [pending] using hwhole
          | writeBridgeFrame payload =>
              have hframe := writeBridgeFrame_flatten hfits
              obtain ⟨buffers, hbuffers, hflatten⟩ := Option.map_eq_some_iff.mp hframe
              have hsplit : stream (written ++ [payload]) =
                  accepted ++ bridgeFramed payload := by
                rw [hwhole, stream, List.flatMap_append]
                simp
              simp only [SessionKind.afterRequest, hbuffers]
              refine ⟨fun _ => ?_, ?_, ?_⟩
              · rw [pending_afterWrite, hflatten, hsplit]
              · rw [hsplit]
                exact List.prefix_append _ _
              · intro other hother
                rcases List.mem_append.mp hother with hold | hnew
                · exact hw.fits other hold
                · rw [List.mem_singleton.mp hnew, Fits]
                  exact Nat.lt_succ_of_le hfits

theorem Writing.afterPart (hw : Writing s.state written accepted) {n : ℕ}
    (hstep : kind.step s (.write n) = some t) :
    Writing t.state written (accepted ++ SocketRun.acceptedBy s (.write n)) := by
  cases hstate : s.state with
  | write buffers =>
      cases buffers with
      | nil => simp [SessionKind.step, hstate] at hstep
      | cons buffer rest =>
          simp only [SessionKind.step, hstate] at hstep
          obtain ⟨-, hnext⟩ := Option.ite_none_right_eq_some.mp hstep
          cases hnext
          have hwhole := hw.whole (by simp [hstate, Ended])
          simp only [hstate, pending, List.flatten_cons] at hwhole
          have hsplit : accepted ++ buffer.take n ++ (buffer.drop n ++ rest.flatten) =
              stream written := by
            rw [← hwhole, List.append_assoc, ← List.append_assoc (buffer.take n),
              List.take_append_drop]
          simp only [SocketRun.acceptedBy, hstate]
          refine ⟨fun _ => ?_, ⟨_, hsplit⟩, hw.fits⟩
          rw [pending_afterWrite, List.flatten_cons]
          exact hsplit
  | _ => simp [SessionKind.step, hstate] at hstep

theorem Writing.afterStep (hw : Writing s.state written accepted) {e : SessionEvent T}
    (hstep : kind.step s e = some t) :
    Writing t.state (written ++ SocketRun.writtenBy kind s e)
      (accepted ++ SocketRun.acceptedBy s e) := by
  cases e with
  | request runtime =>
      have hnext := hw.afterRequest hstep
      simpa [SocketRun.acceptedBy] using hnext
  | write n =>
      have hnext := hw.afterPart hstep
      simpa [SocketRun.writtenBy] using hnext
  | _ =>
      simp only [SocketRun.writtenBy, SocketRun.acceptedBy, List.append_nil]
      refine ⟨fun hrunning => ?_, hw.cut, hw.fits⟩
      obtain ⟨hbefore, hpending⟩ :=
        pending_of_quiet hstep (by simp) (by simp) hrunning
      rw [hpending]
      exact hw.whole hbefore

end Writes

section Sessions

open Bridge Mailbox

variable {T : Type} [QueueCodec T] {N B : ℕ} {kind : SessionKind T N B}
variable {requests responses : OverwriteQueue T N B}

/-- The step that ends the session, or comes after, queues nothing of the
network. -/
theorem pushed_of_session_ended {r t : SessionRun T N B} {e : SessionEvent T}
    (hstep : r.step kind e = some t) (hended : Ended t.session.state) :
    t.pushed = r.pushed := by
  obtain ⟨session, hsession, rfl⟩ := Option.map_eq_some_iff.mp hstep
  obtain ⟨reason, hreason⟩ := hended
  cases e with
  | deliver =>
      cases hstate : r.session.state with
      | deliver len =>
          simp only [SessionKind.step, hstate, Option.some.injEq] at hsession
          subst hsession
          simp only [SessionRun.pushed, SessionRun.queuedBy, hstate]
          simp only [SessionKind.deliver] at hreason
          cases hitem : kind.deliverItem r.session len with
          | error reason => simp
          | ok item =>
              rcases hpush : r.session.responses.tryPushRef item with
                ⟨queue, _ | _⟩
              · simp [hpush]
              · simp [hitem, hpush] at hreason
      | _ => simp [SessionKind.step, hstate] at hsession
  | tryPush =>
      cases hstate : r.session.state with
      | push item =>
          simp only [SessionRun.pushed, SessionRun.queuedBy, hstate]
          split <;> simp
      | _ => simp [SessionKind.step, hstate] at hsession
  | _ => simp [SessionRun.pushed, SessionRun.queuedBy]

/-- The invariant of a session as one end of a link. -/
structure BusInv (kind : SessionKind T N B) (payloadOf : T → List UInt8)
    (responses : OverwriteQueue T N B) (r : SocketRun T N B) : Prop where
  in_order : InOrder kind responses r.run
  writing : Writing r.run.session.state r.written r.accepted
  pushed_prefix : stream (r.run.pushed.map payloadOf) <+: r.run.consumed

/-- What was queued are the complete frames, but for one that waits. -/
theorem pushed_payloads {payloadOf : T → List UInt8}
    (hpayload : ∀ item payload, QueueCodec.wire item = kind.networkWire payload →
      payloadOf item = payload)
    {r : SessionRun T N B} (hr : InOrder kind responses r) :
    r.pushed.map payloadOf ++ r.session.state.waiting r.session.bufs =
      completeFrames kind.netBuf r.consumed := by
  obtain ⟨done, hpushed, hframes⟩ := hr.delivering.frames_eq
  have hdone : r.pushed.map payloadOf = done := by
    clear hframes
    generalize r.pushed = pushed at hpushed
    induction pushed generalizing done with
    | nil =>
        rw [List.map_nil, eq_comm, List.map_eq_nil_iff] at hpushed
        rw [hpushed, List.map_nil]
    | cons item pushed ih =>
        cases done with
        | nil => simp at hpushed
        | cons payload done =>
            simp only [List.map_cons, List.cons.injEq] at hpushed ⊢
            exact ⟨hpayload item payload hpushed.1, ih done hpushed.2⟩
  rw [hdone, hframes]

theorem consumed_of_running {payloadOf : T → List UInt8}
    (hpayload : ∀ item payload, QueueCodec.wire item = kind.networkWire payload →
      payloadOf item = payload)
    {r : SessionRun T N B} (hr : InOrder kind responses r)
    (hrunning : ¬Ended r.session.state) :
    ∃ p : Partial, p.Incomplete kind.netBuf ∧
      r.consumed = stream (r.pushed.map payloadOf ++
        r.session.state.waiting r.session.bufs) ++ partialBytes p := by
  rcases hr.allConsumed with hended | ⟨p, hp, hbytes⟩
  · exact absurd hended hrunning
  · exact ⟨p, hp, by rw [pushed_payloads hpayload hr]; exact hbytes⟩

theorem BusInv.afterStep {payloadOf : T → List UInt8}
    (hpayload : ∀ item payload, QueueCodec.wire item = kind.networkWire payload →
      payloadOf item = payload)
    {r t : SocketRun T N B} (hr : BusInv kind payloadOf responses r)
    {e : SessionEvent T} (hstep : r.step kind e = some t) :
    BusInv kind payloadOf responses t := by
  obtain ⟨run, hrun, rfl⟩ := Option.map_eq_some_iff.mp hstep
  have hnext := hr.in_order.afterStep hrun
  have hstate : kind.step r.run.session e = some run.session ∧
      run.consumed = r.run.consumed ++ SessionRun.consumedBy e := by
    obtain ⟨session, hsession, rfl⟩ := Option.map_eq_some_iff.mp hrun
    exact ⟨hsession, rfl⟩
  refine ⟨hnext, hr.writing.afterStep hstate.1, ?_⟩
  by_cases hended : Ended run.session.state
  · rw [pushed_of_session_ended hrun hended, hstate.2]
    exact hr.pushed_prefix.trans (List.prefix_append _ _)
  · obtain ⟨p, -, hbytes⟩ := consumed_of_running hpayload hnext hended
    rw [hbytes, stream, stream, List.flatMap_append, List.append_assoc]
    exact List.prefix_append _ _

theorem busInv_of_reaches {payloadOf : T → List UInt8}
    (hpayload : ∀ item payload, QueueCodec.wire item = kind.networkWire payload →
      payloadOf item = payload)
    {es : List (SessionEvent T)} {r : SocketRun T N B}
    (hreach : Runs.Reaches (SocketRun.step kind)
      (SocketRun.start kind requests responses) es r) :
    BusInv kind payloadOf responses r := by
  refine hreach.invariant (fun _ _ _ h hstep => h.afterStep hpayload hstep) ?_
  refine ⟨inOrder_start kind requests responses, ?_, List.prefix_rfl⟩
  exact ⟨fun _ => rfl, List.prefix_rfl, by simp [SocketRun.start]⟩

/-- A session between the queues of its bus task, with what it takes from an
item it queued. -/
def busSession (kind : SessionKind T N B) (payloadOf : T → List UInt8)
    (hpayload : ∀ item payload, QueueCodec.wire item = kind.networkWire payload →
      payloadOf item = payload)
    (requests responses : OverwriteQueue T N B) :
    SessionEnd (SocketRun T N B) (SessionEvent T) where
  step := SocketRun.step kind
  sent := SocketRun.accepted
  taken r := r.run.consumed
  sent_mono {s e t} hstep := by
    obtain ⟨run, -, rfl⟩ := Option.map_eq_some_iff.mp hstep
    exact List.prefix_append _ _
  start := SocketRun.start kind requests responses
  written := SocketRun.written
  delivered r := r.run.pushed.map payloadOf
  waiting r := r.run.session.state.waiting r.run.session.bufs
  Idle r := ¬Ended r.run.session.state ∧ pending r.run.session.state = []
  Running r := ¬Ended r.run.session.state
  framing {es r} hreach := by
    have hr := busInv_of_reaches hpayload hreach
    constructor
    · exact hr.writing.cut
    · rintro ⟨hrunning, hidle⟩
      have hwhole := hr.writing.whole hrunning
      rwa [hidle, List.append_nil] at hwhole
    · exact hr.pushed_prefix
    · exact fun hrunning => ⟨_, consumed_of_running hpayload hr.in_order hrunning⟩
    · exact hr.writing.fits
    · intro payload hmem
      rw [pushed_payloads hpayload hr.in_order] at hmem
      exact completeFrames_fits hmem

end Sessions

/-! ## Any two bridges -/

/-- The session a Pico runs, with the queues it finds. -/
inductive Upstream
  | uart (upload download : UartMailbox.PacketQueue)
  | i2c (config : BridgeConfig) (requests responses : I2c.I2cQueue)
  | spi (config : BridgeConfig)
      (requests responses : Mailbox.OverwriteQueue Mailbox.SpiFrame Spi.queueDepth
        Spi.queueBytes)

namespace Upstream

def State : Upstream → Type
  | .uart _ _ => UartMailbox.ForwardRun
  | .i2c _ _ _ => SocketRun Mailbox.I2cPacket I2c.packetQueueDepth I2c.packetQueueBytes
  | .spi _ _ _ => SocketRun Mailbox.SpiFrame Spi.queueDepth Spi.queueBytes

def Event : Upstream → Type
  | .uart _ _ => UartMailbox.ForwardEvent
  | .i2c _ _ _ => Bridge.SessionEvent Mailbox.I2cPacket
  | .spi _ _ _ => Bridge.SessionEvent Mailbox.SpiFrame

theorem i2c_payload (config : BridgeConfig) (item : Mailbox.I2cPacket)
    (payload : List UInt8)
    (hwire : Mailbox.QueueCodec.wire item = (I2c.session config).networkWire payload) :
    item.payload.asSlice = payload := by
  have hcons : item.kind :: item.payload.asSlice = I2c.kindData :: payload := hwire
  exact (List.cons.inj hcons).2

theorem spi_payload (config : BridgeConfig) (item : Mailbox.SpiFrame)
    (payload : List UInt8)
    (hwire : Mailbox.QueueCodec.wire item = (Spi.session config).networkWire payload) :
    item.asSlice.drop frameHeaderSize = payload := by
  have hframe : item.asSlice = framed (reqDataMagic, respDataMagic) payload := hwire
  rw [hframe]
  rfl

def session : (u : Upstream) → SessionEnd u.State u.Event
  | .uart upload download => uartSession upload download
  | .i2c config requests responses =>
      busSession (I2c.session config) (fun item => item.payload.asSlice)
        (i2c_payload config) requests responses
  | .spi config requests responses =>
      busSession (Spi.session config) (fun item => item.asSlice.drop frameHeaderSize)
        (spi_payload config) requests responses

end Upstream

theorem joined_startLink {σ τ ε δ : Type} (a : SessionEnd σ ε) (b : SessionEnd τ δ) :
    Wired.Joined (linkEnd a) (linkEnd b) startLink where
  left := List.prefix_rfl
  right := List.prefix_rfl

/-- The responder's session begins no later than the initiator's. -/
theorem responder_open {σ τ ε δ : Type} {a : SessionEnd σ ε} {b : SessionEnd τ δ}
    {es : List (HandshakeEvent ⊕ ε)} {es' : List (HandshakeEvent ⊕ δ)}
    {p : LinkState σ} {q : LinkState τ}
    (hp : Runs.Reaches (linkEnd a).step (linkStart true) es p)
    (hq : Runs.Reaches (linkEnd b).step (linkStart false) es' q)
    (htaken : (linkEnd a).taken p <+: (linkEnd b).sent q)
    (hopen : p.second.isSome = true) : q.second.isSome = true := by
  obtain ⟨s, hs⟩ := Option.isSome_iff_exists.mp hopen
  obtain ⟨hexchanging, hsecond⟩ := exists_handshake hp
  obtain ⟨hexchanging', hsecond'⟩ := exists_handshake hq
  obtain ⟨-, hbuf, hlength⟩ := hexchanging.of_succeeded (hsecond s hs).1
  cases ht : q.second with
  | some t => rfl
  | none =>
      exfalso
      have hprefix : linkHandshakeMagic <+: q.first.accepted := by
        have hall : p.first.buf ++ p.second.elim [] a.taken <+:
            q.first.accepted ++ q.second.elim [] b.sent := htaken
        rw [ht, Option.elim_none, List.append_nil, hbuf] at hall
        exact (List.prefix_append _ _).trans hall
      have haccepted : q.first.accepted = linkHandshakeMagic :=
        hexchanging'.accepted_prefix.eq_of_length
          (le_antisymm hexchanging'.accepted_prefix.length_le hprefix.length_le)
      have hnonempty : q.first.accepted ≠ [] := by
        rw [haccepted]
        decide
      have hdone := (hexchanging'.responder hnonempty).2.2 haccepted
      have hnone := (Wired.Component.phased_of_reaches hq).not_yet rfl ht
      rw [if_pos hdone] at hnone
      cases hnone

/-- Any two bridges on one connection, in any interleaving, with any partial
reads and writes and any faults: when the initiator's session runs the
responder's has begun, no byte of the handshake reaches a session, and either
session queues for its bus a prefix of the payloads the other one has written,
all of them once nothing is under way. -/
theorem linked_bridges_deliver
    (a b : Upstream) (events : List ((HandshakeEvent ⊕ a.Event) ⊕ (HandshakeEvent ⊕ b.Event)))
    (p : LinkState a.State × LinkState b.State)
    (hreach : Runs.Reaches (linkStep a.session b.session) startLink events p) :
    (p.1.second.isSome = true → p.2.second.isSome = true) ∧
      Carried a.session b.session p.1 p.2 ∧ Carried b.session a.session p.2 p.1 := by
  have hp := Wired.interleave_left hreach
  have hq := Wired.interleave_right hreach
  have hjoined := Wired.joined_of_reaches (joined_startLink a.session b.session) hreach
  exact ⟨responder_open hp hq hjoined.left, carried_of_reaches hp hq hjoined.right,
    carried_of_reaches hq hp hjoined.left⟩

def i2cEnd : Upstream :=
  .i2c BridgeConfig.i2cServer I2c.I2cTask.start.rxResp I2c.I2cTask.start.rxResp

/-- The handshake, then a request of one byte through both bridges. -/
def oneByte : List ((HandshakeEvent ⊕ i2cEnd.Event) ⊕ (HandshakeEvent ⊕ i2cEnd.Event)) :=
  [.inl (.inl (.write 7)), .inr (.inl (.read linkHandshakeMagic)),
    .inr (.inl (.write 7)), .inl (.inl (.read linkHandshakeMagic)),
    .inl (.inr (.busRequest ⟨I2c.kindData, ⟨[7], by decide⟩⟩)),
    .inl (.inr .checkSpace), .inl (.inr (.request CommandRuntime.idle)),
    .inl (.inr (.write 5)), .inr (.inr .checkSpace), .inr (.inr .call),
    .inr (.inr (.read [0xB5])), .inr (.inr (.read [0x4E])), .inr (.inr (.read [1])),
    .inr (.inr (.read [0])), .inr (.inr (.read [7])), .inr (.inr .deliver)]

theorem linked_bridges_deliver_byte :
    ∃ p : LinkState i2cEnd.State × LinkState i2cEnd.State,
      Runs.Reaches (linkStep i2cEnd.session i2cEnd.session) startLink oneByte p ∧
        i2cEnd.session.receiving p.2 = [[7]] ∧
        Carried i2cEnd.session i2cEnd.session p.1 p.2 := by
  have hrun : (oneByte.foldlM (linkStep i2cEnd.session i2cEnd.session)
      startLink).map (fun p => i2cEnd.session.receiving p.2) = some [[7]] := by
    decide +kernel
  obtain ⟨p, hreach, hdelivered⟩ := Option.map_eq_some_iff.mp hrun
  have hall := linked_bridges_deliver i2cEnd i2cEnd oneByte p hreach
  exact ⟨p, hreach, hdelivered, hall.2.1⟩

end Link
end PicoFi
