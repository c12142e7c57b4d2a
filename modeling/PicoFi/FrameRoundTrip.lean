import PicoFi.LinkFrame

/-!
# Frames built in place

The builder of link frames writes into a buffer of the caller.  Here it is run
with every write checked: it keeps inside the buffer, a refusal writes nothing,
and the parser gives back what the builder was given, as far as it fits.
-/

namespace PicoFi
namespace LinkFrame

open Buffer

/-! ## Checked writes -/

/-- `out[i] = byte`; `none` is a panic. -/
def set? (out : List UInt8) (i : ℕ) (byte : UInt8) : Option (List UInt8) :=
  if i < out.length then some (out.set i byte) else none

/-- `out[start..stop].copy_from_slice(src)` -/
def copyFromSlice? (out : List UInt8) (start stop : ℕ) (src : List UInt8) :
    Option (List UInt8) :=
  if start ≤ stop ∧ stop ≤ out.length ∧ src.length = stop - start then
    some (splice out start src)
  else none

/-- The writes both frame builders make, one after the other. -/
def writeFrame? (out : List UInt8) (pair : UInt8 × UInt8) (len : ℕ)
    (src : List UInt8) : Option (List UInt8) := do
  let out ← set? out 0 pair.1
  let out ← set? out 1 pair.2
  let out ← copyFromSlice? out 2 4 (le16 len)
  copyFromSlice? out frameHeaderSize (frameHeaderSize + len) src

theorem set?_eq {out : List UInt8} {i : ℕ} (hi : i < out.length) (byte : UInt8) :
    set? out i byte = some (out.set i byte) := if_pos hi

theorem copyFromSlice?_eq {out src : List UInt8} {start stop : ℕ}
    (hstart : start ≤ stop) (hstop : stop ≤ out.length)
    (hsrc : src.length = stop - start) :
    copyFromSlice? out start stop src = some (splice out start src) :=
  if_pos ⟨hstart, hstop, hsrc⟩

theorem writeFrame?_eq {out src : List UInt8} {pair : UInt8 × UInt8}
    (hfit : frameHeaderSize + src.length ≤ out.length) :
    writeFrame? out pair src.length src = some (writeFrame out pair src) := by
  have hheader : ((out.set 0 pair.1).set 1 pair.2).length = out.length := by
    rw [List.length_set, List.length_set]
  have hlength : (splice ((out.set 0 pair.1).set 1 pair.2) 2 (le16 src.length)).length =
      out.length := by
    rw [length_splice, hheader]
    rw [hheader, length_le16]
    exact (Nat.le_add_right _ _).trans hfit
  simp only [frameHeaderSize] at hfit
  simp only [writeFrame?, Option.bind_eq_bind]
  rw [set?_eq (by omega), Option.bind_some, set?_eq (by rw [List.length_set]; omega),
    Option.bind_some,
    copyFromSlice?_eq (by decide) (by rw [hheader]; omega) (length_le16 _),
    Option.bind_some,
    copyFromSlice?_eq (Nat.le_add_right _ _) (by rw [hlength]; exact hfit)
      (Nat.add_sub_cancel_left _ _).symm]
  rfl

/-- The result of `build_frame_into` and the buffer it leaves. -/
def buildFrameInto? (magic : UInt8) (payload out : List UInt8) :
    Option (Option ℕ × List UInt8) :=
  match headerForMagic magic with
  | none => some (none, out)
  | some pair =>
      if out.length < frameHeaderSize then some (none, out)
      else do
        let maxPayload := out.length - frameHeaderSize
        let len := min (min payload.length maxPayload) 65535
        let written ← writeFrame? out pair len (← slice? payload 0 len)
        return (some (frameHeaderSize + len), written)

/-- No index leaves its buffer, and the writes are those of `buildFrameInto`. -/
theorem buildFrameInto?_eq (magic : UInt8) (payload out : List UInt8) :
    buildFrameInto? magic payload out =
      some (match buildFrameInto magic payload out with
        | none => (none, out)
        | some (used, written) => (some used, written)) := by
  unfold buildFrameInto? buildFrameInto
  cases headerForMagic magic with
  | none => rfl
  | some pair =>
      dsimp only
      split
      next => rfl
      next hroom =>
        have hlen : min (min payload.length (out.length - frameHeaderSize)) 65535 ≤
            min payload.length (out.length - frameHeaderSize) := Nat.min_le_left _ _
        generalize min (min payload.length (out.length - frameHeaderSize)) 65535 = n
          at hlen ⊢
        have hpayload : n ≤ payload.length := hlen.trans (Nat.min_le_left _ _)
        have hmax : n ≤ out.length - frameHeaderSize := hlen.trans (Nat.min_le_right _ _)
        have htake : (payload.take n).length = n := List.length_take_of_le hpayload
        have hwrite := @writeFrame?_eq out (payload.take n) pair
          (by rw [htake]; exact Nat.add_le_of_le_sub' (not_lt.mp hroom) hmax)
        rw [htake] at hwrite
        rw [slice?_eq_some (Nat.zero_le _) hpayload, Option.bind_eq_bind, Option.bind_some,
          slice_zero, hwrite]
        rfl

/-! ## What the parser finds -/

def KnownMagic (magic : UInt8) : Prop :=
  magic ∈ [reqDataMagic, respDataMagic, reqCommandMagic, respCommandMagic,
    reqRawAsciiMagic, respRawAsciiMagic]

instance (magic : UInt8) : Decidable (KnownMagic magic) :=
  inferInstanceAs (Decidable (_ ∈ _))

/-- The request that a frame of the magic carries; raw ASCII is none. -/
def requestOf (magic : UInt8) (payload : List UInt8) : Option RequestFrame :=
  if magic ∈ [reqDataMagic, respDataMagic] then some (.data payload)
  else if magic ∈ [reqCommandMagic, respCommandMagic] then some (.command payload)
  else none

theorem headerForMagic_eq_none {magic : UInt8} (hmagic : ¬KnownMagic magic) :
    headerForMagic magic = none := by
  simp only [KnownMagic, List.mem_cons, List.not_mem_nil, or_false, not_or] at hmagic
  obtain ⟨h0, h1, h2, h3, h4, h5⟩ := hmagic
  simp [headerForMagic, h0, h1, h2, h3, h4, h5]

theorem parseRequestBytes_framed_rawAscii (payload rest : List UInt8) :
    parseRequestBytes
      (framed (reqRawAsciiMagic, respRawAsciiMagic) payload ++ rest) = none := by
  have hheader : parseFrameHeader
      (framed (reqRawAsciiMagic, respRawAsciiMagic) payload ++ rest) =
        some (.rawAscii, u16le (UInt8.ofNat payload.length)
          (UInt8.ofNat (payload.length / 256))) := by
    rw [framed_append_eq]
    rfl
  rw [parseRequestBytes, hheader]
  exact ite_self none

/-- The header pair of a magic says which request its frames carry. -/
theorem parseRequestBytes_header {magic : UInt8} (hmagic : KnownMagic magic) :
    ∃ pair, headerForMagic magic = some pair ∧
      ∀ payload rest : List UInt8, payload.length < 65536 →
        parseRequestBytes (framed pair payload ++ rest) = requestOf magic payload := by
  simp only [KnownMagic, List.mem_cons, List.not_mem_nil, or_false] at hmagic
  rcases hmagic with rfl | rfl | rfl | rfl | rfl | rfl
  · exact ⟨_, rfl, fun _ _ h => parseRequestBytes_framed_data h⟩
  · exact ⟨_, rfl, fun _ _ h => parseRequestBytes_framed_data h⟩
  · exact ⟨_, rfl, fun _ _ h => parseRequestBytes_framed_command h⟩
  · exact ⟨_, rfl, fun _ _ h => parseRequestBytes_framed_command h⟩
  · exact ⟨_, rfl, fun payload rest _ => parseRequestBytes_framed_rawAscii payload rest⟩
  · exact ⟨_, rfl, fun payload rest _ => parseRequestBytes_framed_rawAscii payload rest⟩

/-! ## Round trip -/

theorem buildFrameInto?_refused {magic : UInt8} {payload out : List UInt8}
    (h : ¬KnownMagic magic ∨ out.length < frameHeaderSize) :
    buildFrameInto? magic payload out = some (none, out) := by
  unfold buildFrameInto?
  rcases h with hmagic | hshort
  · rw [headerForMagic_eq_none hmagic]
  · cases headerForMagic magic with
    | none => rfl
    | some pair => exact if_pos hshort

/-- The frame is built at the start of the buffer, and the rest stays. -/
theorem buildFrameInto?_built {magic : UInt8} {payload out : List UInt8}
    {pair : UInt8 × UInt8} (hmagic : headerForMagic magic = some pair)
    (hout : frameHeaderSize ≤ out.length) :
    let len := min (min payload.length (out.length - frameHeaderSize)) 65535
    buildFrameInto? magic payload out =
      some (some (frameHeaderSize + len),
        framed pair (payload.take len) ++ out.drop (frameHeaderSize + len)) := by
  intro len
  rw [buildFrameInto?_eq, buildFrameInto_eq hmagic hout]

/-- The builder refuses exactly the unknown magics and the buffers without room
for a header, and writes nothing then.  Otherwise it writes the first bytes of
the buffer, and the parser finds in them, with anything behind, as much of the
payload as fits.  The other builder builds the same frame in a buffer of
zeros. -/
theorem build_frame_parses (magic : UInt8) (payload out : List UInt8) :
    (¬KnownMagic magic ∨ out.length < frameHeaderSize →
      buildFrameInto? magic payload out = some (none, out)) ∧
    (KnownMagic magic → frameHeaderSize ≤ out.length →
      let n := min (min payload.length (out.length - frameHeaderSize)) 65535
      ∃ written, buildFrameInto? magic payload out =
          some (some (frameHeaderSize + n), written) ∧
        written.length = out.length ∧
        written.drop (frameHeaderSize + n) = out.drop (frameHeaderSize + n) ∧
        ∀ suffix, parseRequestBytes (written.take (frameHeaderSize + n) ++ suffix) =
          requestOf magic (payload.take n)) ∧
    (KnownMagic magic →
      ∃ used, buildFrameInto? magic payload (List.replicate frameSize 0) =
        some (some used, (makeResponseFrame magic payload).toList)) := by
  refine ⟨buildFrameInto?_refused, ?_, ?_⟩
  · intro hmagic hout n
    obtain ⟨pair, hpair, hparse⟩ := parseRequestBytes_header hmagic
    have hn : (payload.take n).length = n := by
      rw [List.length_take]
      omega
    have hused : (framed pair (payload.take n)).length = frameHeaderSize + n := by
      rw [length_framed, hn]
    refine ⟨_, buildFrameInto?_built hpair hout, ?_, ?_, ?_⟩
    · rw [List.length_append, hused, List.length_drop]
      omega
    · exact List.drop_left' hused
    · intro suffix
      rw [List.take_left' hused]
      exact hparse _ suffix (by rw [hn]; omega)
  · intro hmagic
    obtain ⟨pair, hpair, -⟩ := parseRequestBytes_header hmagic
    have hlen : min (min payload.length payloadMax) 65535 = min payload.length payloadMax :=
      Nat.min_eq_left ((Nat.min_le_right _ _).trans (by decide))
    refine ⟨frameHeaderSize + min payload.length payloadMax, ?_⟩
    rw [buildFrameInto?_eq, buildFrameInto]
    simp only [hpair, List.length_replicate, makeResponseFrame, Option.getD_some]
    rw [if_neg (by decide), hlen]

def ping : List UInt8 := [0x2F, 0x70, 0x69, 0x6E, 0x67]

/-- A command of five bytes in a buffer that holds three of them. -/
theorem build_frame_parses_cut :
    ∃ written, buildFrameInto? respCommandMagic ping (List.replicate 7 0xFF) =
        some (some 7, written) ∧
      parseRequestBytes (written ++ [1, 2]) = some (.command (ping.take 3)) := by
  obtain ⟨written, hbuilt, hlength, -, hparse⟩ :=
    (build_frame_parses respCommandMagic ping (List.replicate 7 0xFF)).2.1
      (by decide) (by decide)
  refine ⟨written, hbuilt, ?_⟩
  have hwhole : written.take 7 = written := List.take_of_length_le (by simp [hlength])
  have hcut := hparse [1, 2]
  change parseRequestBytes (written.take 7 ++ [1, 2]) = _ at hcut
  rw [hwhole] at hcut
  exact hcut

end LinkFrame
end PicoFi
