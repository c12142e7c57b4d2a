import Mathlib.Data.List.GetD
import PicoFi.QueueItems
import PicoFi.SpiTask

/-!
# The SPI hosts

Two hosts read the frames that the firmware clocks out, one written in Rust and
one in Python.  Both look for the sync pair at the start of a capture of 260
bytes or one byte later, and both take the payload by its length field, so what
follows the frame on the wire does not matter.
-/

namespace PicoFi
namespace SpiHost

open Buffer LinkFrame Mailbox Spi

/-! ## The host in Rust -/

/-- `Frame` of the host. -/
inductive HostFrame
  | data (payload : List UInt8)
  | command (payload : List UInt8)
  deriving DecidableEq

/-- `Error::InvalidFrame` -/
structure InvalidFrame where
  magic : UInt8
  len : ℕ
  deriving DecidableEq

/-- `usize::MAX` of a host with 64 bits. -/
def usizeMax : ℕ := 2 ^ 64 - 1

/-- Magic, length and start of the payload that a capture announces. -/
def announced (raw : Frame) : UInt8 × ℕ × ℕ :=
  if (raw.byte 0, raw.byte 1) = (reqDataMagic, respDataMagic) then
    (respDataMagic, u16le (raw.byte 2) (raw.byte 3), frameHeaderSize)
  else if (raw.byte 0, raw.byte 1) = (reqCommandMagic, respCommandMagic) then
    (respCommandMagic, u16le (raw.byte 2) (raw.byte 3), frameHeaderSize)
  else if raw.byte 0 = 0 ∧ (raw.byte 1, raw.byte 2) = (reqDataMagic, respDataMagic) then
    (respDataMagic, u16le (raw.byte 3) (raw.byte 4), frameHeaderSize + 1)
  else if raw.byte 0 = 0 ∧
      (raw.byte 1, raw.byte 2) = (reqCommandMagic, respCommandMagic) then
    (respCommandMagic, u16le (raw.byte 3) (raw.byte 4), frameHeaderSize + 1)
  else (raw.byte 0, usizeMax, frameHeaderSize)

def parseResponse (raw : Frame) : Except InvalidFrame HostFrame :=
  let (magic, len, payloadStart) := announced raw
  if payloadMax < len then .error ⟨magic, len⟩
  else
    let payloadEnd := payloadStart + len
    if frameSize < payloadEnd then .error ⟨magic, len⟩
    else
      let payload := slice raw.toList payloadStart payloadEnd
      if magic = respDataMagic then .ok (.data payload)
      else if magic = respCommandMagic then .ok (.command payload)
      else .error ⟨magic, len⟩

/-! ## The host in Python -/

/-- One pass of the loop over the offsets; `none` goes on to the next.  The
range of the loop keeps the four reads inside the capture. -/
def parseAt (frame : List UInt8) (offset : ℕ) : Option (UInt8 × ℕ × List UInt8) :=
  let first := frame.getD offset 0
  let second := frame.getD (offset + 1) 0
  let magicVal :=
    if (first, second) = (reqDataMagic, respDataMagic) then some respDataMagic
    else if (first, second) = (reqCommandMagic, respCommandMagic) then
      some respCommandMagic
    else none
  match magicVal with
  | none => none
  | some magicVal =>
      let length := u16le (frame.getD (offset + 2) 0) (frame.getD (offset + 3) 0)
      if payloadMax < length then none
      else
        let payloadStart := offset + frameHeaderSize
        let payloadEnd := payloadStart + length
        if frame.length < payloadEnd then none
        else some (magicVal, length, slice frame payloadStart payloadEnd)

def parseFrame (frame : List UInt8) : UInt8 × ℕ × List UInt8 :=
  if frame.length < frameHeaderSize then (0, 0, [])
  else
    ((List.range (min 2 (frame.length - (frameHeaderSize - 1)))).findSome?
      (parseAt frame)).getD (0, 0, [])

/-! ## Captures of a frame -/

/-- What the hosts call the frames of a magic. -/
def hostFrame (magic : UInt8) (payload : List UInt8) : Option HostFrame :=
  if magic = reqDataMagic ∨ magic = respDataMagic then some (.data payload)
  else if magic = reqCommandMagic ∨ magic = respCommandMagic then
    some (.command payload)
  else none

def HostFrame.magic : HostFrame → UInt8
  | .data _ => respDataMagic
  | .command _ => respCommandMagic

def HostFrame.pair : HostFrame → UInt8 × UInt8
  | .data _ => (reqDataMagic, respDataMagic)
  | .command _ => (reqCommandMagic, respCommandMagic)

def HostFrame.payload : HostFrame → List UInt8
  | .data payload | .command payload => payload

/-- The bytes that are clocked out for a staged frame. -/
def wireBytes (frame : Frame) : List UInt8 := frame.toList.take (frameWireLen frame)

/-- Both hosts take the frame from the capture. -/
structure ParsedAs (frame : HostFrame) (capture : Frame) : Prop where
  rust : parseResponse capture = .ok frame
  python : parseFrame capture.toList = (frame.magic, frame.payload.length, frame.payload)

theorem hostFrame_eq_some {magic : UInt8} {payload : List UInt8} {frame : HostFrame}
    (h : hostFrame magic payload = some frame) :
    frame.payload = payload ∧ headerForMagic magic = some frame.pair := by
  unfold hostFrame at h
  split at h
  next hdata =>
    cases h
    exact ⟨rfl, if_pos hdata⟩
  next hdata =>
    obtain ⟨hcommand, hframe⟩ := Option.ite_none_right_eq_some.mp h
    cases hframe
    refine ⟨rfl, ?_⟩
    rw [headerForMagic, if_neg hdata, if_pos hcommand]
    rfl

/-- Both builders stage the framed payload padded with zeros. -/
theorem toList_staged {magic : UInt8} {frame : HostFrame} {staged : Frame}
    (hmagic : headerForMagic magic = some frame.pair)
    (hpayload : frame.payload.length ≤ payloadMax)
    (hstaged : staged = makeResponseFrame magic frame.payload ∨
      staged = (SpiFrame.response magic frame.payload).asFrame) :
    ∃ rest, staged.toList = framed frame.pair frame.payload ++ rest := by
  rcases hstaged with rfl | rfl
  · exact ⟨_, toList_makeResponseFrame hmagic hpayload⟩
  · have hslice := SpiFrame.asSlice_response hmagic frame.payload
    rw [List.take_of_length_le hpayload] at hslice
    rw [SpiFrame.asFrame, FixedBytes.toList_padded _
      (SpiFrame.response magic frame.payload).data.length_le]
    rw [SpiFrame.asSlice] at hslice
    rw [hslice]
    exact ⟨_, rfl⟩

theorem announced_len {frame : HostFrame} (hpayload : frame.payload.length ≤ payloadMax) :
    u16le (UInt8.ofNat frame.payload.length) (UInt8.ofNat (frame.payload.length / 256)) =
      frame.payload.length := by
  refine u16le_ofNat ?_
  simp only [payloadMax, frameSize, frameHeaderSize] at hpayload
  omega

theorem wireBytes_staged {frame : HostFrame} {staged : Frame} {rest : List UInt8}
    (hpayload : frame.payload.length ≤ payloadMax)
    (hstaged : staged.toList = framed frame.pair frame.payload ++ rest) :
    wireBytes staged = framed frame.pair frame.payload := by
  have hbytes := hstaged
  rw [framed_append_eq] at hbytes
  have hsync : SyncPair (staged.byte 0) (staged.byte 1) := by
    simp only [FixedBytes.byte, hbytes, List.getD_cons_zero, List.getD_cons_succ]
    cases frame with
    | data _ => exact .inl rfl
    | command _ => exact .inr rfl
  have hlen : frameLen staged = frame.payload.length := by
    simp only [frameLen, FixedBytes.byte, hbytes, List.getD_cons_zero, List.getD_cons_succ]
    exact announced_len hpayload
  have hwire : frameWireLen staged = frameHeaderSize + frame.payload.length := by
    rw [frameWireLen, if_neg (not_not_intro hsync), hlen]
    simp only [payloadMax, frameSize, frameHeaderSize] at hpayload ⊢
    omega
  rw [wireBytes, hwire, hstaged, List.take_left' (length_framed _ _)]

/-! ## Both hosts -/

theorem slice_behind (pair : UInt8 × UInt8) (lead payload rest : List UInt8) :
    slice (lead ++ (framed pair payload ++ rest)) (lead.length + frameHeaderSize)
      (lead.length + frameHeaderSize + payload.length) = payload := by
  rw [slice_append_right (Nat.le_add_right _ _), Nat.add_assoc, Nat.add_sub_cancel_left,
    Nat.add_sub_cancel_left]
  exact slice_framed pair payload rest

/-- A frame in a capture leaves room for its payload. -/
theorem frame_fits {frame : HostFrame} {capture : Frame} {lead rest : List UInt8}
    (hcapture : capture.toList = lead ++ (framed frame.pair frame.payload ++ rest)) :
    lead.length + frameHeaderSize + frame.payload.length ≤ frameSize := by
  rw [← capture.length_toList, hcapture, List.length_append, List.length_append,
    length_framed]
  omega

theorem parseResponse_framed {frame : HostFrame} {capture : Frame}
    {lead rest : List UInt8}
    (hcapture : capture.toList = lead ++ (framed frame.pair frame.payload ++ rest))
    (hpayload : frame.payload.length ≤ payloadMax)
    (hannounced : announced capture =
      (frame.magic, frame.payload.length, lead.length + frameHeaderSize)) :
    parseResponse capture = .ok frame := by
  have hend := frame_fits hcapture
  have hslice := slice_behind frame.pair lead frame.payload rest
  rw [← hcapture] at hslice
  unfold parseResponse
  simp only [hannounced, hslice]
  rw [if_neg (Nat.not_lt.mpr hpayload), if_neg (Nat.not_lt.mpr hend)]
  cases frame with
  | data _ => rfl
  | command _ => rfl

theorem parseAt_framed {frame : HostFrame} {capture : Frame} {lead rest : List UInt8}
    (hcapture : capture.toList = lead ++ (framed frame.pair frame.payload ++ rest))
    (hpayload : frame.payload.length ≤ payloadMax) :
    parseAt capture.toList lead.length =
      some (frame.magic, frame.payload.length, frame.payload) := by
  have hend := frame_fits hcapture
  have hslice := slice_behind frame.pair lead frame.payload rest
  have hread (i : ℕ) : capture.toList.getD (lead.length + i) 0 =
      (framed frame.pair frame.payload ++ rest).getD i 0 := by
    rw [hcapture, List.getD_append_right _ _ _ _ (Nat.le_add_right _ _),
      Nat.add_sub_cancel_left]
  have hfirst := hread 0
  rw [Nat.add_zero] at hfirst
  rw [← hcapture] at hslice
  unfold parseAt
  simp only [hfirst, hread, hslice, framed_append_eq, List.getD_cons_zero,
    List.getD_cons_succ, announced_len hpayload, if_neg (Nat.not_lt.mpr hpayload),
    capture.length_toList, if_neg (Nat.not_lt.mpr hend)]
  cases frame with
  | data _ => rfl
  | command _ => rfl

/-- The loop of the host passes two offsets. -/
theorem parseFrame_eq (capture : Frame) :
    parseFrame capture.toList =
      (parseAt capture.toList 0 <|> parseAt capture.toList 1).getD (0, 0, []) := by
  rw [parseFrame, capture.length_toList, if_neg (by decide)]
  rw [show List.range (min 2 (frameSize - (frameHeaderSize - 1))) = [0, 1] from rfl]
  cases h : parseAt capture.toList 0 <;> cases h' : parseAt capture.toList 1 <;>
    simp [List.findSome?, h, h']

/-- Both hosts find the frame at the start of the capture or a byte later. -/
theorem announced_framed {frame : HostFrame} {capture : Frame} {lead rest : List UInt8}
    (hlead : lead = [] ∨ lead = [0])
    (hcapture : capture.toList = lead ++ (framed frame.pair frame.payload ++ rest))
    (hpayload : frame.payload.length ≤ payloadMax) :
    announced capture =
      (frame.magic, frame.payload.length, lead.length + frameHeaderSize) := by
  rw [framed_append_eq] at hcapture
  rcases hlead with rfl | rfl
  all_goals
    simp only [announced, FixedBytes.byte, hcapture, List.nil_append, List.cons_append,
      List.getD_cons_zero, List.getD_cons_succ, announced_len hpayload]
    cases frame with
    | data _ => rfl
    | command _ => rfl

theorem parsedAs_aligned {frame : HostFrame} {capture : Frame} {rest : List UInt8}
    (hpayload : frame.payload.length ≤ payloadMax)
    (hcapture : capture.toList = framed frame.pair frame.payload ++ rest) :
    ParsedAs frame capture := by
  have hlead : capture.toList = [] ++ (framed frame.pair frame.payload ++ rest) := hcapture
  constructor
  · exact parseResponse_framed hlead hpayload (announced_framed (.inl rfl) hlead hpayload)
  · have hread := parseAt_framed hlead hpayload
    rw [List.length_nil] at hread
    rw [parseFrame_eq, hread]
    rfl

theorem parsedAs_late {frame : HostFrame} {capture : Frame} {rest : List UInt8}
    (hcapture : capture.toList = 0 :: (framed frame.pair frame.payload ++ rest)) :
    ParsedAs frame capture := by
  have hlead : capture.toList = [0] ++ (framed frame.pair frame.payload ++ rest) := hcapture
  have hpayload : frame.payload.length ≤ payloadMax := by
    have hend := frame_fits hlead
    simp only [List.length_singleton, payloadMax, frameSize, frameHeaderSize] at hend ⊢
    omega
  constructor
  · exact parseResponse_framed hlead hpayload (announced_framed (.inr rfl) hlead hpayload)
  · have hfirst : parseAt capture.toList 0 = none := by
      rw [parseAt, hcapture]
      rfl
    have hsecond := parseAt_framed hlead hpayload
    rw [List.length_singleton] at hsecond
    rw [parseFrame_eq, hfirst, hsecond]
    rfl

/-- A response that is clocked out reaches both hosts whole, whatever follows
it.  A capture that starts a byte early has room for 255 bytes of payload, and
brings them as well. -/
theorem hosts_parse_response {magic : UInt8} {payload : List UInt8} {frame : HostFrame}
    (hframe : hostFrame magic payload = some frame) (hpayload : payload.length ≤ payloadMax)
    {staged : Frame}
    (hstaged : staged = makeResponseFrame magic payload ∨
      staged = (SpiFrame.response magic payload).asFrame)
    (filler : List UInt8) (capture : Frame) :
    (capture.toList = wireBytes staged ++ filler → ParsedAs frame capture) ∧
      (capture.toList = 0 :: (wireBytes staged ++ filler) → ParsedAs frame capture) := by
  obtain ⟨rfl, hmagic⟩ := hostFrame_eq_some hframe
  obtain ⟨rest, hrest⟩ := toList_staged hmagic hpayload hstaged
  rw [wireBytes_staged hpayload hrest]
  exact ⟨parsedAs_aligned hpayload, parsedAs_late⟩

def pong : List UInt8 := [0x70, 0x6F, 0x6E, 0x67]

/-- The answer with a repeated byte behind it, a byte late. -/
theorem hosts_parse_response_pong :
    ParsedAs (.command pong)
      ⟨0 :: ([0xA6, 0x5B, 4, 0] ++ pong ++ List.replicate 251 0xFF), by
        rw [List.length_cons, List.length_append, List.length_replicate]
        rfl⟩ :=
  (@hosts_parse_response respCommandMagic pong _ rfl (by decide) _ (.inl rfl)
    (List.replicate 251 0xFF) _).2 rfl

end SpiHost
end PicoFi
