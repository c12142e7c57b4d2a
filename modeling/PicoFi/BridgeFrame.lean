import PicoFi.FrameReader
import PicoFi.LinkFrame

/-!
# Frames of the network bridge

One bridged payload is one frame on the TCP stream: a sync pair, a
little-endian length and the payload.  The writer keeps a small frame in one
write; the reader is the incremental frame reader without resynchronisation.
-/

namespace PicoFi
namespace BridgeFrame

open Buffer LinkFrame PicoFi.Stream

abbrev bridgeFrameHeaderSize : ℕ := 4
abbrev bridgeFrameInlineWriteMax : ℕ := 512

def bridgeFrameMagic : UInt8 × UInt8 := (0xB5, 0x4E)

def bridgeFramed (payload : List UInt8) : List UInt8 :=
  framed bridgeFrameMagic payload

/-- The buffers `write_bridge_frame` hands to the socket, in order, or
nothing for a payload the length field cannot hold. -/
def writeBridgeFrame (payload : List UInt8) : Option (List (List UInt8)) :=
  if 65535 < payload.length then none
  else
    let header :=
      [bridgeFrameMagic.1, bridgeFrameMagic.2] ++ le16 payload.length
    if payload.length + bridgeFrameHeaderSize ≤ bridgeFrameInlineWriteMax then
      some [header ++ payload]
    else some [header, payload]

/-- Whichever branch is taken, the socket receives the framed payload. -/
theorem writeBridgeFrame_flatten {payload : List UInt8}
    (hpayload : payload.length ≤ 65535) :
    (writeBridgeFrame payload).map List.flatten =
      some (bridgeFramed payload) := by
  unfold writeBridgeFrame
  rw [if_neg (by omega)]
  simp only
  split <;> simp [bridgeFramed, framed]

/-- `[[BRIDGE_FRAME_MAGIC0, BRIDGE_FRAME_MAGIC1]; 2]` -/
def bridgeMagic : MagicPairs := ⟨bridgeFrameMagic, bridgeFrameMagic⟩

def bridgeFrameReader : FrameReader := FrameReader.new bridgeMagic false

/-! ## Reading framed payloads -/

theorem decode_framed {magic : MagicPairs} {resync : Bool} {cap : ℕ}
    {pair : UInt8 × UInt8} (hpair : pair ∈ magic.toList)
    {payload : List UInt8} (hcap : payload.length ≤ cap)
    (hpayload : payload.length < 65536) :
    Partial.empty.decode magic resync cap ((framed pair payload).map .byte) =
      (Partial.empty, [.ok pair.1 payload]) := by
  obtain ⟨m0, m1⟩ := pair
  have hstarts : magic.Starts m0 := ⟨_, hpair, rfl⟩
  have hmatches : magic.Matches [m0, m1] := ⟨_, hpair, rfl⟩
  set lo := UInt8.ofNat payload.length
  set hi := UInt8.ofNat (payload.length / 256)
  have hlength : (⟨[m0, m1, lo, hi], []⟩ : Partial).length = payload.length :=
    u16le_ofNat hpayload
  have hfirst : Partial.empty.feed magic resync cap (.byte m0) =
      (⟨[m0], []⟩, []) := by
    simp [Partial.feed, Partial.feedHeader, Partial.empty, hstarts]
  have hsecond : (⟨[m0], []⟩ : Partial).feed magic resync cap (.byte m1) =
      (⟨[m0, m1], []⟩, []) := by
    simp [Partial.feed, Partial.feedHeader, hmatches]
  have hthird : (⟨[m0, m1], []⟩ : Partial).feed magic resync cap (.byte lo) =
      (⟨[m0, m1, lo], []⟩, []) := by
    simp [Partial.feed, Partial.feedHeader]
  have hfourth : (⟨[m0, m1, lo], []⟩ : Partial).feed magic resync cap
      (.byte hi) =
      if payload.length = 0 then (Partial.empty, [.ok m0 []])
      else (⟨[m0, m1, lo, hi], []⟩, []) := by
    have hfit : ¬cap < payload.length := by omega
    simp [Partial.feed, Partial.feedHeader, hlength, hfit]
  have hbytes : framed (m0, m1) payload = m0 :: m1 :: lo :: hi :: payload := by
    simpa using framed_append_eq (m0, m1) payload []
  rw [hbytes]
  simp only [List.map_cons, Partial.decode, hfirst, hsecond, hthird, hfourth,
    List.nil_append]
  by_cases hempty : payload = []
  · simp [hempty]
  · have hpos : ¬payload.length = 0 := by simpa using hempty
    rw [if_neg hpos, Partial.decode_payload ⟨[m0, m1, lo, hi], []⟩ rfl payload
      hempty (by rw [hlength]; simp)]
    simp [hlength]

theorem decode_bridgeFramed {cap : ℕ} {payloads : List (List UInt8)}
    (hcap : ∀ payload ∈ payloads, payload.length ≤ cap ∧ payload.length < 65536) :
    Partial.empty.decode bridgeMagic false cap
        ((payloads.flatMap bridgeFramed).map .byte) =
      (Partial.empty, payloads.map (.ok bridgeFrameMagic.1)) := by
  induction payloads with
  | nil => rfl
  | cons payload payloads ih =>
      obtain ⟨hfit, hlen⟩ := hcap payload (by simp)
      have hfirst := @decode_framed bridgeMagic false cap bridgeFrameMagic
        (by simp [bridgeMagic, MagicPairs.toList]) payload hfit hlen
      rw [List.flatMap_cons, List.map_append, Partial.decode_append, bridgeFramed,
        hfirst, ih fun other h => hcap other (by simp [h])]
      rfl

/-! ## Frames out of a stream -/

def okPayload : FrameResult → Option (List UInt8)
  | .ok _ payload => some payload
  | .err => none

def partialBytes (p : Partial) : List UInt8 := p.header ++ p.payload

/-- The sync bytes read so far are those of the bridge. -/
def Opens (p : Partial) : Prop :=
  p.header.take 2 = [bridgeFrameMagic.1, bridgeFrameMagic.2].take p.header.length

/-- What is known of a frame in progress between two bytes. -/
structure InProgress (cap : ℕ) (p : Partial) : Prop where
  opens : Opens p
  incomplete : p.Incomplete cap

theorem inProgress_empty (cap : ℕ) : InProgress cap Partial.empty :=
  ⟨rfl, Partial.incomplete_empty⟩

theorem bridgeMagic_starts (b : UInt8) :
    bridgeMagic.Starts b ↔ b = bridgeFrameMagic.1 := by
  simp [MagicPairs.Starts, MagicPairs.toList, bridgeMagic, eq_comm]

theorem bridgeMagic_matches (header : List UInt8) :
    bridgeMagic.Matches header ↔
      header = [bridgeFrameMagic.1, bridgeFrameMagic.2] := by
  simp [MagicPairs.Matches, MagicPairs.toList, bridgeMagic, eq_comm]

theorem framed_of_header
    {header payload : List UInt8} (hcomplete : header.length = 4)
    (hopens : Opens ⟨header, []⟩)
    (hlength : (⟨header, []⟩ : Partial).length = payload.length) :
    header ++ payload = bridgeFramed payload := by
  obtain ⟨m0, m1, lo, hi, rfl⟩ : ∃ m0 m1 lo hi, header = [m0, m1, lo, hi] := by
    match header, hcomplete with
    | [m0, m1, lo, hi], _ => exact ⟨m0, m1, lo, hi, rfl⟩
  have hpair : [m0, m1] = [bridgeFrameMagic.1, bridgeFrameMagic.2] := hopens
  have hfield : u16le lo hi = payload.length := hlength
  rw [bridgeFramed, framed, ← hfield, le16_u16le]
  simp only [List.cons.injEq, and_true] at hpair
  rw [hpair.1, hpair.2]
  rfl

theorem inProgress_header
    {cap : ℕ} {header : List UInt8} (hshort : header.length < 4)
    (hopens : Opens ⟨header, []⟩) : InProgress cap ⟨header, []⟩ where
  opens := hopens
  incomplete :=
    { header_le := Nat.le_of_lt hshort
      payload_nil := fun _ => rfl
      payload_lt := fun hcomplete => absurd hcomplete (Nat.ne_of_lt hshort)
      length_le := fun hcomplete => absurd hcomplete (Nat.ne_of_lt hshort) }

/-- What the reader makes of one arriving byte: an error, no result yet, or a
complete frame. -/
inductive ByteOutcome (cap : ℕ) (before : List UInt8) :
    Partial × List FrameResult → Prop
  | err : ByteOutcome cap before (Partial.empty, [.err])
  | progress {q : Partial} (hq : InProgress cap q) (hbytes : partialBytes q = before) :
      ByteOutcome cap before (q, [])
  | frame (kind : UInt8) {payload : List UInt8}
      (hbytes : bridgeFramed payload = before) :
      ByteOutcome cap before (Partial.empty, [.ok kind payload])

theorem feedHeader_outcome
    {cap : ℕ} {header : List UInt8} (hopens : Opens ⟨header, []⟩)
    (hshort : header.length < 4) (b : UInt8) :
    ByteOutcome cap (header ++ [b])
      ((⟨header, []⟩ : Partial).feedHeader bridgeMagic false cap b) := by
  have hbytes : ∀ bytes : List UInt8, partialBytes ⟨bytes, []⟩ = bytes :=
    fun bytes => List.append_nil bytes
  match header, hshort with
  | [], _ =>
      by_cases hstarts : bridgeMagic.Starts b
      · have hb := (bridgeMagic_starts b).mp hstarts
        have hfeed : (⟨[], []⟩ : Partial).feedHeader bridgeMagic false cap b =
            (⟨[b], []⟩, []) := by
          simp [Partial.feedHeader, hstarts]
        rw [hfeed]
        refine .progress (inProgress_header (by simp) ?_) (hbytes _)
        rw [hb]
        rfl
      · have hfeed : (⟨[], []⟩ : Partial).feedHeader bridgeMagic false cap b =
            (Partial.empty, [.err]) := by
          simp [Partial.feedHeader, hstarts]
        rw [hfeed]
        exact .err
  | [h0], _ =>
      by_cases hmatches : bridgeMagic.Matches [h0, b]
      · have hpair := (bridgeMagic_matches [h0, b]).mp hmatches
        have hfeed : (⟨[h0], []⟩ : Partial).feedHeader bridgeMagic false cap b =
            (⟨[h0, b], []⟩, []) := by
          simp [Partial.feedHeader, hmatches]
        rw [hfeed]
        exact .progress (inProgress_header (by simp) hpair) (hbytes _)
      · have hfeed : (⟨[h0], []⟩ : Partial).feedHeader bridgeMagic false cap b =
            (Partial.empty, [.err]) := by
          simp [Partial.feedHeader, hmatches]
        rw [hfeed]
        exact .err
  | [h0, h1], _ =>
      have hfeed : (⟨[h0, h1], []⟩ : Partial).feedHeader bridgeMagic false cap b =
          (⟨[h0, h1, b], []⟩, []) := by
        simp [Partial.feedHeader]
      rw [hfeed]
      exact .progress (inProgress_header (by simp) hopens) (hbytes _)
  | [h0, h1, h2], _ =>
      set complete : Partial := ⟨[h0, h1, h2, b], []⟩ with hcomplete
      have hfeed : (⟨[h0, h1, h2], []⟩ : Partial).feedHeader bridgeMagic false
          cap b =
          if cap < complete.length then (Partial.empty, [.err])
          else if complete.length = 0 then (Partial.empty, [.ok h0 []])
          else (complete, []) := by
        simp [Partial.feedHeader, hcomplete]
      rw [hfeed]
      split
      · exact .err
      · next hcap =>
        split
        · next hzero =>
          refine .frame h0 ?_
          have hlast : Opens ⟨[h0, h1, h2, b], []⟩ := hopens
          have hframe := @framed_of_header [h0, h1, h2, b] [] rfl hlast hzero
          exact hframe.symm
        · next hpos =>
          refine .progress ⟨hopens, ?_⟩ (hbytes _)
          exact
            { header_le := Nat.le_refl 4
              payload_nil := fun hless => absurd hless (Nat.lt_irrefl 4)
              payload_lt := fun _ => Nat.pos_of_ne_zero hpos
              length_le := fun _ => Nat.le_of_not_lt hcap }

theorem feed_outcome
    {cap : ℕ} {p : Partial} (hp : InProgress cap p) (b : UInt8) :
    ByteOutcome cap (partialBytes p ++ [b])
      (p.feed bridgeMagic false cap (.byte b)) := by
  obtain ⟨header, payload⟩ := p
  have hle := hp.incomplete.header_le
  by_cases hshort : header.length < 4
  · have hpayload : payload = [] := hp.incomplete.payload_nil hshort
    subst hpayload
    have houtcome := @feedHeader_outcome cap header hp.opens hshort b
    simpa [Partial.feed, hshort, partialBytes] using houtcome
  · have hcomplete : header.length = 4 := by
      simp only at hle
      omega
    have hlt := hp.incomplete.payload_lt hcomplete
    have hfeed : (⟨header, payload⟩ : Partial).feed bridgeMagic false cap
        (.byte b) = (⟨header, payload⟩ : Partial).feedPayload b := by
      simp [Partial.feed, hshort]
    rw [hfeed, Partial.feedPayload, partialBytes, List.append_assoc]
    split
    · next hdone =>
      refine .frame _ ?_
      exact (framed_of_header hcomplete hp.opens hdone.symm).symm
    · next hmore =>
      refine .progress ⟨hp.opens, ?_⟩ rfl
      exact
        { header_le := hp.incomplete.header_le
          payload_nil := fun hless => absurd hless hshort
          payload_lt := fun _ => by
            simp only [Partial.length, List.length_append,
              List.length_singleton] at hmore hlt ⊢
            omega
          length_le := hp.incomplete.length_le }

/-- Without an error the stream read so far is the frames read from it and
the bytes of the frame in progress. -/
theorem bytes_of_decode
    {cap : ℕ} {bytes : List UInt8} {p q : Partial} {results : List FrameResult}
    (hp : InProgress cap p)
    (hdecode : p.decode bridgeMagic false cap (bytes.map .byte) = (q, results))
    (hclean : .err ∉ results) :
    partialBytes p ++ bytes =
      (results.filterMap okPayload).flatMap bridgeFramed ++ partialBytes q := by
  induction bytes generalizing p results with
  | nil =>
      cases hdecode
      simp
  | cons b bytes ih =>
      have houtcome := feed_outcome hp b
      simp only [List.map_cons, Partial.decode] at hdecode
      generalize p.feed bridgeMagic false cap (.byte b) = fed at houtcome hdecode
      cases houtcome with
      | err =>
          exfalso
          cases hdecode
          exact hclean (by simp)
      | progress hnext hbytes =>
          cases hdecode
          have hrest := ih hnext rfl (by simpa using hclean)
          rw [hbytes, List.append_assoc, List.singleton_append] at hrest
          simpa using hrest
      | @frame kind payload hbytes =>
          cases hdecode
          simp only at hclean ih ⊢
          have hrest := ih (inProgress_empty cap) rfl (by
            intro hmem
            exact hclean (List.mem_append_right _ hmem))
          calc partialBytes p ++ b :: bytes
              = (partialBytes p ++ [b]) ++ bytes := by simp
            _ = bridgeFramed payload ++ (partialBytes Partial.empty ++ bytes) := by
                rw [← hbytes]
                rfl
            _ = _ := by
                rw [hrest]
                simp [okPayload]

end BridgeFrame
end PicoFi
