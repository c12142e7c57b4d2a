import PicoFi.BridgeFrame
import PicoFi.FrameReaderSchedule
import PicoFi.QueueItems

/-!
# Resynchronisation on the UART

A reader that resynchronises skips bytes until a sync pair.  Between two frames
it holds at most the last byte it saw, and that only if a pair starts with it;
so garbage without a pair costs no frame, whatever it ends with.
-/

namespace PicoFi
namespace Stream

open Buffer LinkFrame

/-! ## Skipping garbage -/

/-- Neither pair occurs in the bytes. -/
def MagicPairs.NotIn (magic : MagicPairs) (bytes : List UInt8) : Prop :=
  ∀ pair ∈ magic.toList, ¬[pair.1, pair.2] <:+: bytes

/-- No pair ends with a byte that starts one. -/
def MagicPairs.Separated (magic : MagicPairs) : Prop :=
  ∀ pair ∈ magic.toList, ¬magic.Starts pair.2

instance (magic : MagicPairs) (bytes : List UInt8) :
    Decidable (magic.NotIn bytes) :=
  List.decidableBAll (fun pair : UInt8 × UInt8 => ¬[pair.1, pair.2] <:+: bytes) _

instance (magic : MagicPairs) : Decidable magic.Separated :=
  List.decidableBAll (fun pair : UInt8 × UInt8 => ¬magic.Starts pair.2) _

/-- A reader that has seen a byte it may start a frame with. -/
def Partial.seeking (magic : MagicPairs) (b : UInt8) : Partial :=
  if magic.Starts b then ⟨[b], []⟩ else Partial.empty

def Partial.afterGarbage (magic : MagicPairs) (bytes : List UInt8) : Partial :=
  match bytes.getLast? with
  | some b => Partial.seeking magic b
  | none => Partial.empty

variable {magic : MagicPairs} {cap : ℕ}

@[simp] theorem Partial.afterGarbage_nil :
    Partial.afterGarbage magic [] = Partial.empty := rfl

@[simp] theorem Partial.afterGarbage_concat (bytes : List UInt8) (b : UInt8) :
    Partial.afterGarbage magic (bytes ++ [b]) = Partial.seeking magic b := by
  simp [Partial.afterGarbage]

theorem MagicPairs.NotIn.of_append {front back : List UInt8}
    (hnone : magic.NotIn (front ++ back)) : magic.NotIn front := by
  intro pair hpair hoccurs
  exact hnone pair hpair (hoccurs.trans (List.prefix_append front back).isInfix)

theorem Partial.feed_empty (b : UInt8) :
    Partial.empty.feed magic true cap (.byte b) =
      (Partial.seeking magic b, []) := by
  by_cases hstarts : magic.Starts b <;>
    simp [Partial.feed, Partial.feedHeader, Partial.empty, Partial.seeking,
      hstarts]

theorem Partial.feed_seeking {a b : UInt8} (hpair : ¬magic.Matches [a, b]) :
    (Partial.seeking magic a).feed magic true cap (.byte b) =
      (Partial.seeking magic b, []) := by
  by_cases hstarts : magic.Starts a
  · simp [Partial.seeking, hstarts, Partial.feed, Partial.feedHeader, hpair]
  · rw [Partial.seeking, if_neg hstarts]
    exact Partial.feed_empty b

theorem Partial.decode_garbage {bytes : List UInt8} (hnone : magic.NotIn bytes) :
    Partial.empty.decode magic true cap (bytes.map .byte) =
      (Partial.afterGarbage magic bytes, []) := by
  induction bytes using List.reverseRecOn with
  | nil => rfl
  | append_singleton bytes b ih =>
      rw [List.map_append, Partial.decode_append, ih hnone.of_append]
      have hnext : (Partial.afterGarbage magic bytes).feed magic true cap
          (.byte b) = (Partial.seeking magic b, []) := by
        rcases List.eq_nil_or_concat bytes with rfl | ⟨front, a, rfl⟩
        · exact Partial.feed_empty b
        · rw [List.concat_eq_append] at hnone ⊢
          rw [Partial.afterGarbage_concat]
          apply Partial.feed_seeking
          rintro ⟨pair, hpair, hsame⟩
          apply hnone pair hpair
          rw [hsame]
          exact ⟨front, [], by simp⟩
      rw [Partial.afterGarbage_concat]
      simp [Partial.decode, hnext]

/-- A frame is read behind garbage as it is read at the start. -/
theorem Partial.decode_after_garbage (hseparated : magic.Separated)
    {garbage : List UInt8} {pair : UInt8 × UInt8} (hpair : pair ∈ magic.toList)
    (bytes : List Arrival) :
    (Partial.afterGarbage magic garbage).decode magic true cap
        (.byte pair.1 :: bytes) =
      Partial.empty.decode magic true cap (.byte pair.1 :: bytes) := by
  have hfeed : (Partial.afterGarbage magic garbage).feed magic true cap
      (.byte pair.1) = Partial.empty.feed magic true cap (.byte pair.1) := by
    rw [Partial.feed_empty]
    rcases List.eq_nil_or_concat garbage with rfl | ⟨front, a, rfl⟩
    · exact Partial.feed_empty pair.1
    · rw [List.concat_eq_append, Partial.afterGarbage_concat]
      apply Partial.feed_seeking
      rintro ⟨other, hother, hsame⟩
      injection hsame with _ hsecond
      injection hsecond with hsecond _
      exact hseparated other hother ⟨pair, hpair, hsecond.symm⟩
  simp only [Partial.decode, hfeed]

/-! ## Frames among garbage -/

/-- A frame with the garbage in front of it. -/
structure NoisyFrame (magic : MagicPairs) (cap : ℕ) where
  garbage : List UInt8
  pair : UInt8 × UInt8
  payload : List UInt8
  garbage_free : magic.NotIn garbage
  pair_mem : pair ∈ magic.toList
  length_le : payload.length ≤ cap

namespace NoisyFrame

def bytes (frame : NoisyFrame magic cap) : List UInt8 :=
  frame.garbage ++ framed frame.pair frame.payload

def result (frame : NoisyFrame magic cap) : FrameResult :=
  .ok frame.pair.1 frame.payload

theorem decode_bytes (hseparated : magic.Separated) (hcap : cap < 65536)
    (frame : NoisyFrame magic cap) :
    Partial.empty.decode magic true cap (frame.bytes.map .byte) =
      (Partial.empty, [frame.result]) := by
  have hframe := @BridgeFrame.decode_framed magic true cap frame.pair
    frame.pair_mem frame.payload frame.length_le
    (Nat.lt_of_le_of_lt frame.length_le hcap)
  rw [bytes, List.map_append, Partial.decode_append,
    Partial.decode_garbage frame.garbage_free]
  rw [framed, List.append_assoc, List.cons_append, List.map_cons] at hframe ⊢
  simp only
  rw [Partial.decode_after_garbage hseparated frame.pair_mem, hframe]
  rfl

theorem decode_all (hseparated : magic.Separated) (hcap : cap < 65536)
    (frames : List (NoisyFrame magic cap)) :
    Partial.empty.decode magic true cap ((frames.flatMap bytes).map .byte) =
      (Partial.empty, frames.map result) := by
  induction frames with
  | nil => rfl
  | cons frame frames ih =>
      rw [List.flatMap_cons, List.map_append, Partial.decode_append,
        frame.decode_bytes hseparated hcap, ih]
      rfl

end NoisyFrame

/-! ## The UART reader -/

/-- `[[0xa5, 0x5a], [0xa6, 0x5b]]` -/
def uartMagic : MagicPairs :=
  ⟨(reqDataMagic, respDataMagic), (reqCommandMagic, respCommandMagic)⟩

/-- In every schedule the UART reader, over the buffer of one packet, returns
the frames of a stream in order and reports no error for the garbage between
them. -/
theorem uart_frames_among_garbage
    (frames : List (NoisyFrame uartMagic Mailbox.maxPayload))
    (buffer : List UInt8) (hbuffer : buffer.length = Mailbox.maxPayload)
    (events : List Event) (s : Session)
    (hreach : Runs.Reaches Session.step
      (Session.start uartMagic true buffer
        ((frames.flatMap NoisyFrame.bytes).map .byte)) events s) :
    s.ReadsAll (frames.map NoisyFrame.result) := by
  have hdecode := NoisyFrame.decode_all (by decide : uartMagic.Separated)
    (by decide) frames
  exact readsAll_of_decode hbuffer hdecode hreach

/-- A lone first byte in front of a frame, and half a pair in front of the
next. -/
def noisyFrames : List (NoisyFrame uartMagic Mailbox.maxPayload) :=
  [⟨[0xA5], (0xA5, 0x5A), [7], by decide, by decide, by decide⟩,
    ⟨[0x5A, 0xA6], (0xA6, 0x5B), [], by decide, by decide, by decide⟩]

def twoCalls : List Event :=
  .call :: List.replicate 6 (.complete 1) ++
    .call :: List.replicate 6 (.complete 1)

theorem uart_frames_among_garbage_lone :
    ∃ s : Session, s.results = [.ok 0xA5 [7], .ok 0xA6 []] ∧
      s.ReadsAll (noisyFrames.map NoisyFrame.result) := by
  have hreach : (twoCalls.foldlM Session.step
        (Session.start uartMagic true (List.replicate Mailbox.maxPayload 0)
          ((noisyFrames.flatMap NoisyFrame.bytes).map .byte))).any
      (fun s : Session => s.results == [.ok 0xA5 [7], .ok 0xA6 []]) = true := by
    decide +kernel
  obtain ⟨s, hs, hresults⟩ := (Option.any_eq_true _ _).mp hreach
  exact ⟨s, beq_iff_eq.mp hresults,
    uart_frames_among_garbage noisyFrames _ (by simp) _ s hs⟩

end Stream
end PicoFi
