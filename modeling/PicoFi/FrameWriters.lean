import PicoFi.ForwardTcp

/-!
# Two writers, one stream

The mailbox task and the other bridges write TCP frames with different code:
one hands buffers to `write_all`, the other to `write_socket`, and each keeps
small frames in one buffer.  Over a socket that takes any positive part of what
it is given, both leave the framed payload on the stream, so a peer reads back
what was written whichever of them wrote it.
-/

namespace PicoFi
namespace Tcp

open Buffer LinkFrame BridgeFrame PicoFi.Stream

/-! ## A socket that takes parts -/

/-- `accepts calls len` is the answer to the next write of so many bytes: how
many of them the socket takes, or an error. -/
structure Socket where
  accepts : ℕ → ℕ → Option ℕ
  calls : ℕ
  stream : List UInt8

namespace Socket

def new (accepts : ℕ → ℕ → Option ℕ) : Socket where
  accepts := accepts
  calls := 0
  stream := []

/-- `socket.write(buf)`, which never takes more than it is given. -/
def write (s : Socket) (buf : List UInt8) : Option ℕ × Socket :=
  let taken := (s.accepts s.calls buf.length).map (min buf.length)
  (taken, { s with
    calls := s.calls + 1
    stream := s.stream ++ buf.take (taken.getD 0) })

/-- Every write of something takes something. -/
def Accepting (accepts : ℕ → ℕ → Option ℕ) : Prop :=
  ∀ calls len, 0 < len → ∃ n, accepts calls len = some n ∧ 0 < n

end Socket

inductive WriteError
  | err
  | panic
  deriving DecidableEq

/-- The loop of both writers; they differ in what a write that takes nothing
means. -/
def writeLoop (refused : WriteError) (s : Socket) (buf : List UInt8) :
    Except WriteError Socket :=
  if buf = [] then .ok s
  else
    match s.write buf with
    | (none, _) => .error .err
    | (some n, s') =>
        if n = 0 then .error refused else writeLoop refused s' (buf.drop n)
termination_by buf.length
decreasing_by
  have hpos : 0 < buf.length := List.length_pos_iff.mpr ‹_›
  simp only [List.length_drop]
  omega

def writeSocket : Socket → List UInt8 → Except WriteError Socket :=
  writeLoop .err

/-- The provided method of the `Write` trait. -/
def writeAll : Socket → List UInt8 → Except WriteError Socket :=
  writeLoop .panic

/-- `uart_mailbox::write_frame` with the bridge's magic. -/
def writeFrame (s : Socket) (payload : List UInt8) : Except WriteError Socket :=
  (UartMailbox.writeFrame bridgeFrameMagic payload).foldlM writeAll s

/-- `net::write_bridge_frame` -/
def writeBridgeFrame (s : Socket) (payload : List UInt8) :
    Except WriteError Socket :=
  match BridgeFrame.writeBridgeFrame payload with
  | none => .error .err
  | some buffers => buffers.foldlM writeSocket s

inductive Writer
  | mailbox
  | bridge
  deriving DecidableEq

def Writer.write : Writer → Socket → List UInt8 → Except WriteError Socket
  | .mailbox => writeFrame
  | .bridge => writeBridgeFrame

/-! ## Whole buffers -/

/-- The socket has taken these bytes and goes on as before. -/
structure Wrote (s : Socket) (bytes : List UInt8) (s' : Socket) : Prop where
  accepts_eq : s'.accepts = s.accepts
  stream_eq : s'.stream = s.stream ++ bytes

theorem Wrote.trans {s s' s'' : Socket} {front back : List UInt8}
    (hfront : Wrote s front s') (hback : Wrote s' back s'') :
    Wrote s (front ++ back) s'' := by
  constructor
  · rw [hback.accepts_eq, hfront.accepts_eq]
  · rw [hback.stream_eq, hfront.stream_eq, List.append_assoc]

theorem Socket.write_eq {s : Socket} (haccepts : Socket.Accepting s.accepts)
    {buf : List UInt8} (hbuf : buf ≠ []) :
    ∃ n s', s.write buf = (some n, s') ∧ 0 < n ∧ Wrote s (buf.take n) s' := by
  have hpos := List.length_pos_iff.mpr hbuf
  obtain ⟨n, hn, hpositive⟩ := haccepts s.calls buf.length hpos
  have htaken : (s.write buf).1 = some (min buf.length n) := by
    simp [Socket.write, hn]
  refine ⟨min buf.length n, (s.write buf).2, Prod.ext htaken rfl, ?_, ?_⟩
  · exact Nat.lt_min.mpr ⟨hpos, hpositive⟩
  · constructor
    · rfl
    · simp [Socket.write, hn]

theorem writeLoop_eq (refused : WriteError) {s : Socket}
    (haccepts : Socket.Accepting s.accepts) (buf : List UInt8) :
    ∃ s', writeLoop refused s buf = .ok s' ∧ Wrote s buf s' := by
  induction hlen : buf.length using Nat.strongRecOn generalizing s buf with
  | _ len ih =>
      by_cases hbuf : buf = []
      · refine ⟨s, ?_, rfl, ?_⟩
        · rw [writeLoop, if_pos hbuf]
        · rw [hbuf, List.append_nil]
      · obtain ⟨n, s', hwrite, hpos, hwrote⟩ := Socket.write_eq haccepts hbuf
        have hne := List.length_pos_iff.mpr hbuf
        have hshorter : (buf.drop n).length < len := by
          rw [List.length_drop]
          omega
        obtain ⟨s'', hrest, hwrote'⟩ := ih _ hshorter
          (hwrote.accepts_eq ▸ haccepts) (buf.drop n) rfl
        refine ⟨s'', ?_, ?_⟩
        · rw [writeLoop, if_neg hbuf, hwrite]
          simp only
          rw [if_neg (Nat.ne_of_gt hpos), hrest]
        · have hboth := hwrote.trans hwrote'
          rwa [List.take_append_drop] at hboth

theorem writeBuffers_eq (refused : WriteError) {s : Socket}
    (haccepts : Socket.Accepting s.accepts) (buffers : List (List UInt8)) :
    ∃ s', buffers.foldlM (writeLoop refused) s = .ok s' ∧
      Wrote s buffers.flatten s' := by
  induction buffers generalizing s with
  | nil => exact ⟨s, rfl, rfl, by simp⟩
  | cons buf buffers ih =>
      obtain ⟨s', hfirst, hwrote⟩ := writeLoop_eq refused haccepts buf
      obtain ⟨s'', hrest, hwrote'⟩ := ih (hwrote.accepts_eq ▸ haccepts)
      refine ⟨s'', ?_, ?_⟩
      · rw [List.foldlM_cons, hfirst]
        exact hrest
      · rw [List.flatten_cons]
        exact hwrote.trans hwrote'

/-! ## Frames -/

/-- Either writer, in either branch, leaves the framed payload. -/
theorem Writer.write_eq (writer : Writer) {s : Socket}
    (haccepts : Socket.Accepting s.accepts) {payload : List UInt8}
    (hpayload : payload.length ≤ 65535) :
    ∃ s', writer.write s payload = .ok s' ∧ Wrote s (bridgeFramed payload) s' := by
  cases writer with
  | mailbox =>
      have hframe := UartMailbox.writeFrame_flatten bridgeFrameMagic payload
      have hwritten := writeBuffers_eq .panic haccepts
        (UartMailbox.writeFrame bridgeFrameMagic payload)
      rwa [hframe] at hwritten
  | bridge =>
      obtain ⟨buffers, hbuffers, hframe⟩ :=
        Option.map_eq_some_iff.mp (writeBridgeFrame_flatten hpayload)
      have hwritten := writeBuffers_eq .err haccepts buffers
      rw [hframe] at hwritten
      simp only [Writer.write, writeBridgeFrame, hbuffers]
      exact hwritten

theorem writeAllFrames_eq {writes : List (Writer × List UInt8)}
    (hpayloads : ∀ write ∈ writes, write.2.length ≤ 65535) {s : Socket}
    (haccepts : Socket.Accepting s.accepts) :
    ∃ s', writes.foldlM (fun s write => write.1.write s write.2) s = .ok s' ∧
      Wrote s ((writes.map Prod.snd).flatMap bridgeFramed) s' := by
  induction writes generalizing s with
  | nil => exact ⟨s, rfl, rfl, by simp⟩
  | cons write writes ih =>
      obtain ⟨s', hfirst, hwrote⟩ :=
        write.1.write_eq haccepts (hpayloads write (by simp))
      obtain ⟨s'', hrest, hwrote'⟩ :=
        ih (fun other h => hpayloads other (by simp [h]))
          (hwrote.accepts_eq ▸ haccepts)
      refine ⟨s'', ?_, ?_⟩
      · rw [List.foldlM_cons, hfirst]
        exact hrest
      · rw [List.map_cons, List.flatMap_cons]
        exact hwrote.trans hwrote'

/-- Payloads of up to 4096 bytes, each written by either writer, end up on the
stream as their frames in order, whatever parts the socket takes; and a bridge
frame reader over a buffer of at least that size reads back exactly the
payloads, in every schedule. -/
theorem written_frames_read_back (writes : List (Writer × List UInt8))
    (hpayloads : ∀ write ∈ writes, write.2.length ≤ 4096)
    (accepts : ℕ → ℕ → Option ℕ) (haccepts : Socket.Accepting accepts) :
    ∃ s, writes.foldlM (fun s write => write.1.write s write.2)
        (Socket.new accepts) = .ok s ∧
      s.stream = (writes.map Prod.snd).flatMap bridgeFramed ∧
      ∀ buffer : List UInt8, 4096 ≤ buffer.length →
        ∀ (events : List Event) (session : Session),
          Runs.Reaches Session.step
            (Session.start bridgeMagic false buffer (s.stream.map .byte)) events
            session →
          session.ReadsAll
            ((writes.map Prod.snd).map (.ok bridgeFrameMagic.1)) := by
  have hsmall : ∀ write ∈ writes, write.2.length ≤ 65535 := fun write h =>
    (hpayloads write h).trans (by decide)
  obtain ⟨s, hs, hwrote⟩ :=
    writeAllFrames_eq hsmall (s := Socket.new accepts) haccepts
  have hstream : s.stream = (writes.map Prod.snd).flatMap bridgeFramed :=
    hwrote.stream_eq
  refine ⟨s, hs, hstream, ?_⟩
  intro buffer hbuffer events session hreach
  rw [hstream] at hreach
  refine readsAll_of_decode rfl (decode_bridgeFramed ?_) hreach
  intro payload hpayload
  obtain ⟨write, hwrite, rfl⟩ := List.mem_map.mp hpayload
  have hle := hpayloads write hwrite
  exact ⟨hle.trans hbuffer, by omega⟩

/-- One byte at a time, an empty frame between two others. -/
theorem written_frames_read_back_single :
    ∃ s, [(Writer.mailbox, [7]), (.bridge, []), (.bridge, [8, 9])].foldlM
        (fun s write => write.1.write s write.2)
        (Socket.new fun _ _ => some 1) = .ok s ∧
      s.stream = [[7], [], [8, 9]].flatMap bridgeFramed ∧
      ∀ buffer : List UInt8, 4096 ≤ buffer.length →
        ∀ (events : List Event) (session : Session),
          Runs.Reaches Session.step
            (Session.start bridgeMagic false buffer (s.stream.map .byte)) events
            session →
          session.ReadsAll
            ([[7], [], [8, 9]].map (.ok bridgeFrameMagic.1)) :=
  written_frames_read_back
    [(Writer.mailbox, [7]), (.bridge, []), (.bridge, [8, 9])] (by simp)
    (fun _ _ => some 1) fun _ _ _ => ⟨1, rfl, Nat.one_pos⟩

end Tcp
end PicoFi
