import PicoFi.ByteBuffer

/-!
# The common link frame

The framed request and response definitions shared by the UART-like upstream
links: a two-byte sync pair, a little-endian length and the payload.  The
firmware both builds frames in place and parses variable-length slices.
-/

namespace PicoFi
namespace LinkFrame

open Buffer

/-- Total number of bytes in a single fixed SPI frame transfer. -/
abbrev frameSize : ℕ := 260

abbrev frameHeaderSize : ℕ := 4

abbrev payloadMax : ℕ := frameSize - frameHeaderSize

def reqDataMagic : UInt8 := 0xA5
def reqCommandMagic : UInt8 := 0xA6
def respDataMagic : UInt8 := 0x5A
def respCommandMagic : UInt8 := 0x5B
def reqRawAsciiMagic : UInt8 := 0xA7
def respRawAsciiMagic : UInt8 := 0x7A

abbrev Frame := FixedBytes frameSize

inductive RequestFrame
  | data (payload : List UInt8)
  | command (payload : List UInt8)
  deriving DecidableEq

inductive FrameKind
  | data
  | command
  | rawAscii
  deriving DecidableEq

def parseFrameHeader : List UInt8 → Option (FrameKind × ℕ)
  | b0 :: b1 :: b2 :: b3 :: _ =>
      let kind :=
        if (b0, b1) = (reqDataMagic, respDataMagic) ∨
            (b0, b1) = (respDataMagic, reqDataMagic) then
          some FrameKind.data
        else if (b0, b1) = (reqCommandMagic, respCommandMagic) ∨
            (b0, b1) = (respCommandMagic, reqCommandMagic) then
          some FrameKind.command
        else if (b0, b1) = (reqRawAsciiMagic, respRawAsciiMagic) then
          some FrameKind.rawAscii
        else none
      kind.map fun kind => (kind, u16le b2 b3)
  | _ => none

def parseRequestBytes (frame : List UInt8) : Option RequestFrame :=
  match parseFrameHeader frame with
  | none => none
  | some (kind, len) =>
      if frame.length < frameHeaderSize + len then none
      else
        let payload := slice frame frameHeaderSize (frameHeaderSize + len)
        match kind with
        | .data => some (.data payload)
        | .command => some (.command payload)
        | .rawAscii => none

def parseRequestFrame (frame : Frame) : Option RequestFrame :=
  parseRequestBytes frame.toList

def headerForMagic (magic : UInt8) : Option (UInt8 × UInt8) :=
  if magic = reqDataMagic ∨ magic = respDataMagic then
    some (reqDataMagic, respDataMagic)
  else if magic = reqCommandMagic ∨ magic = respCommandMagic then
    some (reqCommandMagic, respCommandMagic)
  else if magic = reqRawAsciiMagic ∨ magic = respRawAsciiMagic then
    some (reqRawAsciiMagic, respRawAsciiMagic)
  else none

/-- The writes both frame builders make: sync pair, length and payload. -/
def writeFrame (out : List UInt8) (pair : UInt8 × UInt8)
    (payload : List UInt8) : List UInt8 :=
  let out := (out.set 0 pair.1).set 1 pair.2
  let out := splice out 2 (le16 payload.length)
  splice out frameHeaderSize payload

theorem writeFrame_eq {out payload : List UInt8} {pair : UInt8 × UInt8}
    (hfit : frameHeaderSize + payload.length ≤ out.length) :
    writeFrame out pair payload =
      [pair.1, pair.2] ++ le16 payload.length ++ payload ++
        out.drop (frameHeaderSize + payload.length) := by
  match out, hfit with
  | o0 :: o1 :: o2 :: o3 :: rest, hfit =>
      simp [writeFrame, splice, le16, frameHeaderSize, Nat.add_comm]
  | [], hfit => simp [frameHeaderSize] at hfit
  | [_], hfit => simp [frameHeaderSize] at hfit; omega
  | [_, _], hfit => simp [frameHeaderSize] at hfit; omega
  | [_, _, _], hfit => simp [frameHeaderSize] at hfit; omega

theorem length_writeFrame {out payload : List UInt8} {pair : UInt8 × UInt8}
    (hfit : frameHeaderSize + payload.length ≤ out.length) :
    (writeFrame out pair payload).length = out.length := by
  rw [writeFrame_eq hfit]
  simp only [frameHeaderSize] at hfit
  simp only [List.length_append, List.length_cons, List.length_nil,
    length_le16, List.length_drop, frameHeaderSize]
  omega

/-- Builds a response frame with the given magic byte and payload. -/
def makeResponseFrame (magic : UInt8) (payload : List UInt8) : Frame :=
  let len := min payload.length payloadMax
  let pair := (headerForMagic magic).getD (reqDataMagic, respDataMagic)
  ⟨writeFrame (List.replicate frameSize 0) pair (payload.take len), by
    have hlen : len ≤ payloadMax := Nat.min_le_right _ _
    rw [length_writeFrame, List.length_replicate]
    simp only [List.length_take, List.length_replicate, frameHeaderSize,
      frameSize, payloadMax] at hlen ⊢
    omega⟩

/-- Writes a variable-length frame into `out`; the result is the number of
bytes used and the new contents of `out`. -/
def buildFrameInto (magic : UInt8) (payload out : List UInt8) :
    Option (ℕ × List UInt8) :=
  match headerForMagic magic with
  | none => none
  | some pair =>
      if out.length < frameHeaderSize then none
      else
        let maxPayload := out.length - frameHeaderSize
        let len := min (min payload.length maxPayload) 65535
        some (frameHeaderSize + len, writeFrame out pair (payload.take len))

/-! ## Framed bytes -/

def framed (pair : UInt8 × UInt8) (payload : List UInt8) : List UInt8 :=
  [pair.1, pair.2] ++ le16 payload.length ++ payload

@[simp] theorem length_framed (pair : UInt8 × UInt8) (payload : List UInt8) :
    (framed pair payload).length = frameHeaderSize + payload.length := by
  simp [framed, frameHeaderSize]
  omega

theorem buildFrameInto_eq {magic : UInt8} {payload out : List UInt8}
    {pair : UInt8 × UInt8} (hmagic : headerForMagic magic = some pair)
    (hout : frameHeaderSize ≤ out.length) :
    let len := min (min payload.length (out.length - frameHeaderSize)) 65535
    buildFrameInto magic payload out =
      some (frameHeaderSize + len,
        framed pair (payload.take len) ++ out.drop (frameHeaderSize + len)) := by
  intro len
  have hlen : (payload.take len).length = len := by
    simp only [List.length_take]
    omega
  have hfit : frameHeaderSize + (payload.take len).length ≤ out.length := by
    rw [hlen]
    omega
  unfold buildFrameInto
  simp only [hmagic]
  rw [if_neg (by omega), writeFrame_eq hfit, hlen]
  rw [framed, hlen]

/-- A response frame is the framed payload padded with zeros. -/
theorem toList_makeResponseFrame {magic : UInt8} {payload : List UInt8}
    {pair : UInt8 × UInt8} (hmagic : headerForMagic magic = some pair)
    (hpayload : payload.length ≤ payloadMax) :
    (makeResponseFrame magic payload).toList =
      framed pair payload ++
        List.replicate (frameSize - (frameHeaderSize + payload.length)) 0 := by
  have htake : payload.take (min payload.length payloadMax) = payload :=
    List.take_of_length_le (by omega)
  unfold makeResponseFrame
  simp only [hmagic, Option.getD_some, htake]
  rw [writeFrame_eq, List.drop_replicate]
  · rfl
  · simp only [List.length_replicate, frameHeaderSize, frameSize,
      payloadMax] at hpayload ⊢
    omega

theorem framed_append_eq (pair : UInt8 × UInt8) (payload rest : List UInt8) :
    framed pair payload ++ rest =
      pair.1 :: pair.2 :: UInt8.ofNat payload.length ::
        UInt8.ofNat (payload.length / 256) :: (payload ++ rest) := by
  simp [framed, le16]

theorem slice_framed (pair : UInt8 × UInt8) (payload rest : List UInt8) :
    slice (framed pair payload ++ rest) frameHeaderSize
      (frameHeaderSize + payload.length) = payload := by
  rw [framed_append_eq]
  simp [slice, frameHeaderSize, Nat.add_comm 4]

theorem parseRequestBytes_framed_data {payload rest : List UInt8}
    (hpayload : payload.length < 65536) :
    parseRequestBytes
        (framed (reqDataMagic, respDataMagic) payload ++ rest) =
      some (.data payload) := by
  have hslice := slice_framed (reqDataMagic, respDataMagic) payload rest
  unfold parseRequestBytes
  have hheader : parseFrameHeader
      (framed (reqDataMagic, respDataMagic) payload ++ rest) =
        some (.data, payload.length) := by
    rw [framed_append_eq]
    simp [parseFrameHeader, u16le_ofNat hpayload]
  simp only [hheader, hslice]
  rw [if_neg (by simp)]

theorem parseRequestBytes_framed_command {payload rest : List UInt8}
    (hpayload : payload.length < 65536) :
    parseRequestBytes
        (framed (reqCommandMagic, respCommandMagic) payload ++ rest) =
      some (.command payload) := by
  have hslice := slice_framed (reqCommandMagic, respCommandMagic) payload rest
  unfold parseRequestBytes
  have hheader : parseFrameHeader
      (framed (reqCommandMagic, respCommandMagic) payload ++ rest) =
        some (.command, payload.length) := by
    rw [framed_append_eq]
    simp [parseFrameHeader, u16le_ofNat hpayload, reqCommandMagic,
      respCommandMagic, reqDataMagic, respDataMagic]
  simp only [hheader, hslice]
  rw [if_neg (by simp)]

theorem length_of_parseRequestBytes {frame payload : List UInt8}
    (h : parseRequestBytes frame = some (.data payload) ∨
      parseRequestBytes frame = some (.command payload)) :
    frameHeaderSize + payload.length ≤ frame.length := by
  unfold parseRequestBytes at h
  cases hheader : parseFrameHeader frame with
  | none => simp [hheader] at h
  | some header =>
      obtain ⟨kind, len⟩ := header
      simp only [hheader] at h
      by_cases hshort : frame.length < frameHeaderSize + len
      · rw [if_pos hshort] at h
        simp at h
      · have hslice : (slice frame frameHeaderSize (frameHeaderSize + len)).length =
            len := by
          rw [length_slice (by omega)]
          omega
        rw [if_neg hshort] at h
        cases kind <;> simp only [Option.some.injEq, RequestFrame.data.injEq,
          RequestFrame.command.injEq, reduceCtorEq, or_false, false_or] at h
        · rw [← h, hslice]
          omega
        · rw [← h, hslice]
          omega

end LinkFrame
end PicoFi
