import PicoFi.BridgeConfig
import PicoFi.BridgeFrame

/-!
# The bridge decoder of the host

The host cuts bridge frames out of chunks of a TCP stream.  A call of `push`
returns the frames that its chunk completes, or raises at an invalid header; the
frames it had already taken out of the buffer are lost with the exception.  So
the frames in front of an invalid header arrive exactly when the chunk that
brings the header completes none of them.
-/

namespace PicoFi
namespace BridgeDecoder

open Buffer LinkFrame BridgeFrame

/-! ## The decoder -/

abbrev bridgeFrameMaxPayload : ℕ := 0xFFFF

/-- `None` is the `ValueError` of a payload that is too large. -/
def buildBridgeFrame (payload : List UInt8) : Option (List UInt8) :=
  if bridgeFrameMaxPayload < payload.length then none
  else
    some ([bridgeFrameMagic.1, bridgeFrameMagic.2] ++ le16 payload.length ++ payload)

/-- What one pass of the loop finds at the front of the buffer. -/
inductive Front
  | short
  | invalid (b0 b1 : UInt8)
  | frame (payload rest : List UInt8)
  deriving DecidableEq

def front (buf : List UInt8) : Front :=
  match buf with
  | b0 :: b1 :: b2 :: b3 :: _ =>
      if b0 ≠ bridgeFrameMagic.1 ∨ b1 ≠ bridgeFrameMagic.2 then .invalid b0 b1
      else
        let frameLen := bridgeFrameHeaderSize + u16le b2 b3
        if buf.length < frameLen then .short
        else .frame (slice buf bridgeFrameHeaderSize frameLen) (buf.drop frameLen)
  | _ => .short

/-- The message of the `ValueError`. -/
def invalidMagicMsg (b0 b1 : UInt8) : List UInt8 :=
  ascii "invalid bridge frame magic: 0x" ++
    [hexDigit (b0.toNat / 16), hexDigit (b0.toNat % 16)] ++ ascii " 0x" ++
    [hexDigit (b1.toNat / 16), hexDigit (b1.toNat % 16)]

theorem slice_append_drop {buf : List UInt8} {start stop : ℕ} (hstart : start ≤ stop)
    (hstop : stop ≤ buf.length) :
    slice buf start stop ++ buf.drop stop = buf.drop start := by
  conv_rhs => rw [← List.take_append_drop stop buf]
  rw [List.drop_append_of_le_length (by rw [List.length_take]; omega), slice]

theorem eq_of_front_frame {buf payload rest : List UInt8}
    (h : front buf = .frame payload rest) :
    payload.length ≤ bridgeFrameMaxPayload ∧ buf = bridgeFramed payload ++ rest := by
  unfold front at h
  split at h
  next b0 b1 b2 b3 tail =>
    simp only at h
    split at h
    next => contradiction
    next hmagic =>
      split at h
      next => contradiction
      next hlong =>
        obtain ⟨rfl, rfl⟩ : b0 = bridgeFrameMagic.1 ∧ b1 = bridgeFrameMagic.2 := by
          simpa only [not_or, not_not] using hmagic
        have hlow := b2.toNat_lt
        have hhigh := b3.toNat_lt
        have hcut : (slice (bridgeFrameMagic.1 :: bridgeFrameMagic.2 :: b2 :: b3 :: tail)
            bridgeFrameHeaderSize (bridgeFrameHeaderSize + u16le b2 b3)).length =
              u16le b2 b3 := by
          rw [length_slice (Nat.not_lt.mp hlong), Nat.add_sub_cancel_left]
        cases h
        refine ⟨?_, ?_⟩
        · rw [hcut, u16le]
          simp only [bridgeFrameMaxPayload]
          omega
        · rw [bridgeFramed, framed, hcut, le16_u16le, List.append_assoc,
            slice_append_drop (Nat.le_add_right _ _) (Nat.not_lt.mp hlong)]
          rfl
  next => contradiction

theorem length_rest_lt {buf payload rest : List UInt8}
    (h : front buf = .frame payload rest) : rest.length < buf.length := by
  rw [(eq_of_front_frame h).2, List.length_append, bridgeFramed, length_framed]
  simp only [frameHeaderSize]
  omega

/-- The loop of `push`: the buffer it leaves, and the frames or the exception. -/
def loop (buf : List UInt8) (out : List (List UInt8)) :
    List UInt8 × Except (List UInt8) (List (List UInt8)) :=
  match _h : front buf with
  | .short => (buf, .ok out)
  | .invalid b0 b1 => (buf, .error (invalidMagicMsg b0 b1))
  | .frame payload rest => loop rest (out ++ [payload])
termination_by buf.length
decreasing_by exact length_rest_lt _h

structure BridgeFrameDecoder where
  buf : List UInt8

namespace BridgeFrameDecoder

def new : BridgeFrameDecoder := ⟨[]⟩

def push (d : BridgeFrameDecoder) (chunk : List UInt8) :
    BridgeFrameDecoder × Except (List UInt8) (List (List UInt8)) :=
  let (buf, result) := loop (d.buf ++ chunk) []
  (⟨buf⟩, result)

/-- What successive calls deliver, up to the first that raises. -/
def delivered (d : BridgeFrameDecoder) : List (List UInt8) → List (List UInt8)
  | [] => []
  | chunk :: chunks =>
      match d.push chunk with
      | (next, .ok out) => out ++ next.delivered chunks
      | (_, .error _) => []

/-- What they have received by then. -/
def received (d : BridgeFrameDecoder) : List (List UInt8) → List UInt8
  | [] => []
  | chunk :: chunks =>
      match d.push chunk with
      | (next, .ok _) => chunk ++ next.received chunks
      | (_, .error _) => chunk

end BridgeFrameDecoder

/-! ## The frames of a stream -/

/-- The longest run of complete valid frames at the start of a stream, and what
follows it. -/
structure Frames (stream : List UInt8) (payloads : List (List UInt8))
    (rest : List UInt8) : Prop where
  stream_eq : stream = payloads.flatMap bridgeFramed ++ rest
  fits : ∀ payload ∈ payloads, payload.length ≤ bridgeFrameMaxPayload
  stops : ∀ payload later, payload.length ≤ bridgeFrameMaxPayload →
    rest ≠ bridgeFramed payload ++ later

/-- A header is complete and is not one of a bridge frame. -/
def InvalidHeader (rest : List UInt8) : Prop :=
  bridgeFrameHeaderSize ≤ rest.length ∧
    rest.take 2 ≠ [bridgeFrameMagic.1, bridgeFrameMagic.2]

theorem bridgeFramed_append (payload later : List UInt8) :
    bridgeFramed payload ++ later =
      bridgeFrameMagic.1 :: bridgeFrameMagic.2 :: UInt8.ofNat payload.length ::
        UInt8.ofNat (payload.length / 256) :: (payload ++ later) :=
  framed_append_eq bridgeFrameMagic payload later

theorem front_bridgeFramed {payload : List UInt8}
    (hfit : payload.length ≤ bridgeFrameMaxPayload) (later : List UInt8) :
    front (bridgeFramed payload ++ later) = .frame payload later := by
  have hlen : u16le (UInt8.ofNat payload.length) (UInt8.ofNat (payload.length / 256)) =
      payload.length := u16le_ofNat (Nat.lt_succ_of_le hfit)
  have hslice := slice_framed bridgeFrameMagic payload later
  have hdrop : (bridgeFramed payload ++ later).drop
      (bridgeFrameHeaderSize + payload.length) = later :=
    List.drop_left' (length_framed _ _)
  have hlong : ¬(bridgeFramed payload ++ later).length <
      bridgeFrameHeaderSize + payload.length := by
    rw [List.length_append, bridgeFramed, length_framed]
    exact Nat.not_lt.mpr (Nat.le_add_right _ _)
  rw [← bridgeFramed] at hslice
  rw [bridgeFramed_append] at hslice hdrop hlong ⊢
  simp only [front, hlen, ne_eq, not_true, or_self, if_false]
  rw [if_neg hlong, hdrop]
  exact congrArg (Front.frame · later) hslice

theorem front_eq_invalid_iff {buf : List UInt8} :
    (∃ b0 b1, front buf = .invalid b0 b1) ↔ InvalidHeader buf := by
  match buf with
  | b0 :: b1 :: b2 :: b3 :: tail =>
      have hheader : InvalidHeader (b0 :: b1 :: b2 :: b3 :: tail) ↔
          b0 ≠ bridgeFrameMagic.1 ∨ b1 ≠ bridgeFrameMagic.2 := by
        simp [InvalidHeader, bridgeFrameHeaderSize, imp_iff_not_or]
      rw [hheader, front]
      by_cases hmagic : b0 ≠ bridgeFrameMagic.1 ∨ b1 ≠ bridgeFrameMagic.2
      · simp [hmagic]
      · rw [if_neg hmagic]
        simp only [hmagic, iff_false, not_exists]
        intro c0 c1
        split <;> simp
  | [] | [_] | [_, _] | [_, _, _] => simp [front, InvalidHeader, bridgeFrameHeaderSize]

namespace Frames

theorem ofFront {buf : List UInt8} (hfront : ∀ payload rest, front buf ≠ .frame payload rest) :
    Frames buf [] buf where
  stream_eq := rfl
  fits := by simp
  stops := by
    rintro payload later hfit rfl
    exact hfront payload later (front_bridgeFramed hfit later)

theorem cons {payload stream rest : List UInt8} {payloads : List (List UInt8)}
    (hfit : payload.length ≤ bridgeFrameMaxPayload) (hframes : Frames stream payloads rest) :
    Frames (bridgeFramed payload ++ stream) (payload :: payloads) rest where
  stream_eq := by rw [hframes.stream_eq, List.flatMap_cons, List.append_assoc]
  fits := by
    intro other hother
    rcases List.mem_cons.mp hother with rfl | h
    · exact hfit
    · exact hframes.fits other h
  stops := hframes.stops

theorem tail {payload stream rest : List UInt8} {payloads : List (List UInt8)}
    (hframes : Frames stream (payload :: payloads) rest) :
    payload.length ≤ bridgeFrameMaxPayload ∧
      stream = bridgeFramed payload ++ (payloads.flatMap bridgeFramed ++ rest) ∧
      Frames (payloads.flatMap bridgeFramed ++ rest) payloads rest := by
  refine ⟨hframes.fits payload List.mem_cons_self, ?_, rfl, ?_, hframes.stops⟩
  · rw [hframes.stream_eq, List.flatMap_cons, List.append_assoc]
  · exact fun other hother => hframes.fits other (List.mem_cons_of_mem _ hother)

/-- A stream has one longest run of frames. -/
theorem unique {stream rest rest' : List UInt8} {payloads payloads' : List (List UInt8)}
    (hframes : Frames stream payloads rest) (hframes' : Frames stream payloads' rest') :
    payloads = payloads' ∧ rest = rest' := by
  induction payloads generalizing stream payloads' with
  | nil =>
      have hstream : stream = rest := hframes.stream_eq
      cases payloads' with
      | nil => exact ⟨rfl, hstream.symm.trans hframes'.stream_eq⟩
      | cons payload' payloads' =>
          obtain ⟨hfit, hcut, -⟩ := hframes'.tail
          exact absurd (hstream.symm.trans hcut) (hframes.stops payload' _ hfit)
  | cons payload payloads ih =>
      obtain ⟨hfit, hcut, htail⟩ := hframes.tail
      cases payloads' with
      | nil =>
          have hstream : stream = rest' := hframes'.stream_eq
          exact absurd (hstream.symm.trans hcut) (hframes'.stops payload _ hfit)
      | cons payload' payloads' =>
          obtain ⟨hfit', hcut', htail'⟩ := hframes'.tail
          have hfront := front_bridgeFramed hfit (payloads.flatMap bridgeFramed ++ rest)
          rw [← hcut, hcut', front_bridgeFramed hfit'] at hfront
          obtain ⟨rfl, hsame⟩ := Front.frame.inj hfront
          rw [hsame] at htail'
          obtain ⟨rfl, rfl⟩ := ih htail htail'
          exact ⟨rfl, rfl⟩

theorem append {stream middle more rest : List UInt8}
    {payloads others : List (List UInt8)} (hframes : Frames stream payloads middle)
    (hmore : Frames (middle ++ more) others rest) :
    Frames (stream ++ more) (payloads ++ others) rest where
  stream_eq := by
    rw [hframes.stream_eq, List.append_assoc, hmore.stream_eq, List.flatMap_append,
      List.append_assoc]
  fits := by
    intro payload hpayload
    rcases List.mem_append.mp hpayload with h | h
    · exact hframes.fits payload h
    · exact hmore.fits payload h
  stops := hmore.stops

end Frames

theorem exists_frames (stream : List UInt8) : ∃ payloads rest, Frames stream payloads rest := by
  induction hsize : stream.length using Nat.strong_induction_on generalizing stream with
  | _ size ih =>
      cases hfront : front stream with
      | frame payload rest =>
          obtain ⟨hfit, hstream⟩ := eq_of_front_frame hfront
          obtain ⟨payloads, last, hrest⟩ :=
            ih rest.length (hsize ▸ length_rest_lt hfront) rest rfl
          rw [hstream]
          exact ⟨payload :: payloads, last, hrest.cons hfit⟩
      | short => exact ⟨[], stream, .ofFront (by simp [hfront])⟩
      | invalid b0 b1 => exact ⟨[], stream, .ofFront (by simp [hfront])⟩

/-- An invalid header ends the frames for good. -/
theorem InvalidHeader.frames {rest : List UInt8} (hinvalid : InvalidHeader rest)
    (more : List UInt8) :
    InvalidHeader (rest ++ more) ∧ Frames (rest ++ more) [] (rest ++ more) := by
  have hlater : InvalidHeader (rest ++ more) := by
    refine ⟨?_, ?_⟩
    · rw [List.length_append]
      exact Nat.le_trans hinvalid.1 (Nat.le_add_right _ _)
    · rw [List.take_append_of_le_length (Nat.le_trans (by decide) hinvalid.1)]
      exact hinvalid.2
  obtain ⟨b0, b1, hfront⟩ := front_eq_invalid_iff.mpr hlater
  exact ⟨hlater, .ofFront (by simp [hfront])⟩

/-! ## Calls of `push` -/

theorem loop_frames {buf rest : List UInt8} {payloads : List (List UInt8)}
    (hframes : Frames buf payloads rest) (out : List (List UInt8)) :
    loop buf out = loop rest (out ++ payloads) := by
  induction payloads generalizing buf out with
  | nil =>
      obtain rfl : buf = rest := hframes.stream_eq
      rw [List.append_nil]
  | cons payload payloads ih =>
      obtain ⟨hfit, rfl, htail⟩ := hframes.tail
      have hfront := front_bridgeFramed hfit (payloads.flatMap bridgeFramed ++ rest)
      rw [loop]
      split
      next h => simp [hfront] at h
      next h => simp [hfront] at h
      next h =>
        rw [hfront] at h
        obtain ⟨rfl, rfl⟩ := Front.frame.inj h
        rw [ih htail, List.append_assoc]
        rfl

theorem loop_ok {buf rest : List UInt8} {payloads : List (List UInt8)}
    (hframes : Frames buf payloads rest) (hvalid : ¬InvalidHeader rest) :
    loop buf [] = (rest, .ok payloads) := by
  rw [loop_frames hframes, List.nil_append, loop]
  split
  next => rfl
  next b0 b1 hfront => exact absurd (front_eq_invalid_iff.mp ⟨b0, b1, hfront⟩) hvalid
  next payload later hfront =>
    obtain ⟨hfit, hcut⟩ := eq_of_front_frame hfront
    exact absurd hcut (hframes.stops payload later hfit)

theorem loop_error {buf rest : List UInt8} {payloads : List (List UInt8)}
    (hframes : Frames buf payloads rest) (hinvalid : InvalidHeader rest) :
    ∃ msg, loop buf [] = (rest, .error msg) := by
  obtain ⟨b0, b1, hfront⟩ := front_eq_invalid_iff.mpr hinvalid
  refine ⟨invalidMagicMsg b0 b1, ?_⟩
  rw [loop_frames hframes, loop]
  split
  next h => simp [hfront] at h
  next h =>
    rw [hfront] at h
    obtain ⟨rfl, rfl⟩ := Front.invalid.inj h
    rfl
  next h => simp [hfront] at h

/-- The calls bring the frames of what they have received. -/
def Complete (past : List UInt8) (payloads : List (List UInt8))
    (d : BridgeFrameDecoder) (chunks : List (List UInt8)) : Prop :=
  ∃ rest, Frames (past ++ d.received chunks) (payloads ++ d.delivered chunks) rest

/-- Where a chunk runs into an invalid header, the frames in front of it were
complete before the chunk. -/
def BreaksAlone (past : List UInt8) (chunks : List (List UInt8)) : Prop :=
  ∀ before chunk after payloads rest, chunks = before ++ chunk :: after →
    Frames (past ++ before.flatten ++ chunk) payloads rest → InvalidHeader rest →
    ∃ rest', Frames (past ++ before.flatten) payloads rest'

/-- A chunk that runs into an invalid header, and the end of the run. -/
theorem complete_iff_of_invalid {d : BridgeFrameDecoder} {past chunk rest : List UInt8}
    {payloads others : List (List UInt8)} (hpast : Frames past payloads d.buf)
    (hchunk : Frames (d.buf ++ chunk) others rest) (hinvalid : InvalidHeader rest)
    (chunks : List (List UInt8)) :
    Complete past payloads d (chunk :: chunks) ↔ BreaksAlone past (chunk :: chunks) := by
  obtain ⟨msg, hloop⟩ := loop_error hchunk hinvalid
  have hpush : d.push chunk = (⟨rest⟩, .error msg) := by
    rw [BridgeFrameDecoder.push, hloop]
  have hall := hpast.append hchunk
  have hcomplete : Complete past payloads d (chunk :: chunks) ↔ others = [] := by
    simp only [Complete, BridgeFrameDecoder.received, BridgeFrameDecoder.delivered, hpush,
      List.append_nil]
    constructor
    · rintro ⟨rest', hframes⟩
      have hsame := (hframes.unique hall).1
      simpa using hsame
    · rintro rfl
      rw [List.append_nil] at hall
      exact ⟨rest, hall⟩
  rw [hcomplete]
  constructor
  · rintro rfl
    rw [List.append_nil] at hall
    intro before first after payloads' rest' hcut hframes hinvalid'
    cases before with
    | nil =>
        simp only [List.nil_append, List.cons.injEq] at hcut
        obtain ⟨rfl, rfl⟩ := hcut
        simp only [List.flatten_nil, List.append_nil] at hframes ⊢
        obtain ⟨rfl, -⟩ := hframes.unique hall
        exact ⟨d.buf, hpast⟩
    | cons first' before =>
        simp only [List.cons_append, List.cons.injEq] at hcut
        obtain ⟨rfl, rfl⟩ := hcut
        -- the header stays invalid, so nothing is completed behind it
        have hlater (more : List UInt8) :
            Frames (past ++ chunk ++ more) payloads (rest ++ more) := by
          have hnone := hall.append (hinvalid.frames more).2
          rwa [List.append_nil] at hnone
        have hbefore := hlater before.flatten
        have hfirst := hlater (before.flatten ++ first)
        simp only [List.flatten_cons, List.append_assoc] at hframes hbefore hfirst ⊢
        obtain ⟨rfl, -⟩ := hframes.unique hfirst
        exact ⟨_, hbefore⟩
  · intro halone
    obtain ⟨rest', hframes⟩ := halone [] chunk chunks _ rest rfl (by simpa using hall) hinvalid
    have hsame := (hframes.unique (by simpa using hpast)).1
    simpa using hsame

/-- A chunk that is decoded to its end goes over to the past. -/
theorem breaksAlone_cons {past chunk rest : List UInt8} {payloads : List (List UInt8)}
    (hframes : Frames (past ++ chunk) payloads rest) (hvalid : ¬InvalidHeader rest)
    (chunks : List (List UInt8)) :
    BreaksAlone past (chunk :: chunks) ↔ BreaksAlone (past ++ chunk) chunks := by
  constructor
  · intro halone before next after payloads' rest' hcut hframes' hinvalid
    have hearlier := halone (chunk :: before) next after payloads' rest' (by rw [hcut]; rfl)
      (by simpa using hframes') hinvalid
    simpa using hearlier
  · intro halone before next after payloads' rest' hcut hframes' hinvalid
    cases before with
    | nil =>
        simp only [List.nil_append, List.cons.injEq] at hcut
        obtain ⟨rfl, rfl⟩ := hcut
        simp only [List.flatten_nil, List.append_nil] at hframes'
        obtain ⟨-, rfl⟩ := hframes'.unique hframes
        exact absurd hinvalid hvalid
    | cons first before =>
        simp only [List.cons_append, List.cons.injEq] at hcut
        obtain ⟨rfl, rfl⟩ := hcut
        have hearlier := halone before next after payloads' rest' rfl
          (by simpa using hframes') hinvalid
        simpa using hearlier

theorem complete_iff {d : BridgeFrameDecoder} {past : List UInt8}
    {payloads : List (List UInt8)} (hpast : Frames past payloads d.buf)
    (hvalid : ¬InvalidHeader d.buf) (chunks : List (List UInt8)) :
    Complete past payloads d chunks ↔ BreaksAlone past chunks := by
  induction chunks generalizing d past payloads with
  | nil =>
      constructor
      · intro _ before chunk after _ _ hcut
        simp at hcut
      · intro _
        refine ⟨d.buf, ?_⟩
        simpa [BridgeFrameDecoder.received, BridgeFrameDecoder.delivered] using hpast
  | cons chunk chunks ih =>
      obtain ⟨others, rest, hchunk⟩ := exists_frames (d.buf ++ chunk)
      by_cases hinvalid : InvalidHeader rest
      · exact complete_iff_of_invalid hpast hchunk hinvalid chunks
      · have hpush : d.push chunk = (⟨rest⟩, .ok others) := by
          rw [BridgeFrameDecoder.push, loop_ok hchunk hinvalid]
        have hall := hpast.append hchunk
        have hrest := @ih ⟨rest⟩ _ _ hall hinvalid
        rw [breaksAlone_cons hall hinvalid, ← hrest]
        simp only [Complete, BridgeFrameDecoder.received, BridgeFrameDecoder.delivered, hpush,
          List.append_assoc]

/-- The payloads that a new decoder delivers, up to and including the first call
that raises, are those of the frames it has received so far exactly when no
chunk that runs into an invalid header also completes a frame. -/
theorem delivered_complete_iff (chunks : List (List UInt8)) :
    (∃ rest, Frames (BridgeFrameDecoder.new.received chunks)
      (BridgeFrameDecoder.new.delivered chunks) rest) ↔ BreaksAlone [] chunks := by
  have hnew : Frames [] [] BridgeFrameDecoder.new.buf := .ofFront (by simp [front])
  have hvalid : ¬InvalidHeader BridgeFrameDecoder.new.buf := fun h => absurd h.1 (by decide)
  exact complete_iff hnew hvalid chunks

/-- A frame with an invalid header behind it, in one chunk. -/
def framedAndBroken : List UInt8 := bridgeFramed [0x61] ++ [0, 0, 1, 0]

/-- The frame in front of the invalid header is lost with the exception. -/
theorem frame_lost_in_chunk :
    ¬∃ rest, Frames (BridgeFrameDecoder.new.received [framedAndBroken])
      (BridgeFrameDecoder.new.delivered [framedAndBroken]) rest := by
  have hinvalid : InvalidHeader [0, 0, 1, 0] := ⟨by decide, by decide⟩
  have hframes : Frames framedAndBroken [[0x61]] [0, 0, 1, 0] :=
    .cons (by decide) (hinvalid.frames []).2
  obtain ⟨msg, hloop⟩ := loop_error hframes hinvalid
  have hpush : BridgeFrameDecoder.new.push framedAndBroken =
      (⟨[0, 0, 1, 0]⟩, .error msg) := by
    rw [BridgeFrameDecoder.push, BridgeFrameDecoder.new, List.nil_append, hloop]
  simp only [BridgeFrameDecoder.received, BridgeFrameDecoder.delivered, hpush]
  rintro ⟨rest, hnone⟩
  exact absurd (hnone.unique hframes).1 (by decide)

/-! ## Streams of built frames -/

theorem buildBridgeFrame_eq_some_iff {payload bytes : List UInt8} :
    buildBridgeFrame payload = some bytes ↔
      payload.length ≤ bridgeFrameMaxPayload ∧ bytes = bridgeFramed payload := by
  rw [buildBridgeFrame]
  split
  next hlong => simp [not_le.mpr hlong]
  next hfit =>
    rw [Option.some.injEq, bridgeFramed, framed]
    exact ⟨fun h => ⟨not_lt.mp hfit, h.symm⟩, fun h => h.2.symm⟩

theorem frames_of_built {payloads frames : List (List UInt8)}
    (hbuilt : List.Forall₂ (buildBridgeFrame · = some ·) payloads frames) :
    Frames frames.flatten payloads [] := by
  induction hbuilt with
  | nil => exact .ofFront (by simp [front])
  | cons hframe _ ih =>
      obtain ⟨hfit, rfl⟩ := buildBridgeFrame_eq_some_iff.mp hframe
      exact ih.cons hfit

/-- A stream that does not run into an invalid header arrives whole, however it
is cut. -/
theorem delivered_of_valid {d : BridgeFrameDecoder} {past rest : List UInt8}
    {payloads all chunks : List (List UInt8)} (hpast : Frames past payloads d.buf)
    (hall : Frames (past ++ chunks.flatten) all rest) (hvalid : ¬InvalidHeader rest) :
    payloads ++ d.delivered chunks = all := by
  induction chunks generalizing d past payloads with
  | nil =>
      rw [List.flatten_nil, List.append_nil] at hall
      rw [BridgeFrameDecoder.delivered, List.append_nil]
      exact (hpast.unique hall).1
  | cons chunk chunks ih =>
      obtain ⟨others, middle, hchunk⟩ := exists_frames (d.buf ++ chunk)
      have hmiddle := hpast.append hchunk
      rw [List.flatten_cons, ← List.append_assoc] at hall
      have hstill : ¬InvalidHeader middle := by
        intro hinvalid
        obtain ⟨hlater, hnone⟩ := hinvalid.frames chunks.flatten
        obtain ⟨-, rfl⟩ := hall.unique (hmiddle.append hnone)
        exact hvalid hlater
      have hpush : d.push chunk = (⟨middle⟩, .ok others) := by
        rw [BridgeFrameDecoder.push, loop_ok hchunk hstill]
      rw [BridgeFrameDecoder.delivered, hpush, ← List.append_assoc]
      exact @ih ⟨middle⟩ _ _ hmiddle hall

/-- What the host builds it also decodes, over every cut of the stream. -/
theorem delivered_built {payloads frames chunks : List (List UInt8)}
    (hbuilt : List.Forall₂ (buildBridgeFrame · = some ·) payloads frames)
    (hcut : chunks.flatten = frames.flatten) :
    BridgeFrameDecoder.new.delivered chunks = payloads := by
  have hnew : Frames [] [] BridgeFrameDecoder.new.buf := .ofFront (by simp [front])
  have hall : Frames ([] ++ chunks.flatten) payloads [] := by
    rw [List.nil_append, hcut]
    exact frames_of_built hbuilt
  exact delivered_of_valid hnew hall fun h => absurd h.1 (by decide)

end BridgeDecoder
end PicoFi
