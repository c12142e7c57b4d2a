import PicoFi.BridgeSession
import PicoFi.SpiTask

/-!
# Bridged data over SPI

`handle_spi_request` takes a queued request to the socket.  The way of a data
frame from the bus to the socket is followed for every payload: the only
thing that stops it is the scan for a local command, which looks at the
length byte and at the middle of the payload as well as at its start.
-/

namespace PicoFi
namespace Spi

open Buffer LinkFrame Mailbox BridgeFrame Bridge

/-! ## The session side -/

def looksLikeLocalCommand (payload : List UInt8) : Bool :=
  payload.head? == some 47 &&
    payload.all fun byte => byte == 10 || byte == 13 || decide (Printable byte)

def handleSpiRequest (config : BridgeConfig) (runtime : CommandRuntime)
    (frame : SpiFrame) (socket : Bool) : RequestEffect SpiFrame :=
  let runLocal (line : List UInt8) : RequestEffect SpiFrame :=
    .respond (SpiFrame.response respCommandMagic
      (renderLocalBridgeCommand config runtime line))
  let bridge (payload : List UInt8) : RequestEffect SpiFrame :=
    if socket then
      if payload ≠ [] then .writeBridgeFrame payload else .none
    else if payload = [] then .respond (SpiFrame.response respDataMagic [])
    else
      .respond (SpiFrame.response respCommandMagic
        (ascii "error spi data no socket"))
  match parseRequestBytes frame.asSlice with
  | some (.data payload) =>
      if looksLikeLocalCommand payload then runLocal (trimAsciiLine payload)
      else bridge payload
  | some (.command payload) =>
      let line := trimAsciiLine payload
      if StartsWithSlash line then runLocal line else bridge payload
  | none =>
      .respond (SpiFrame.response respCommandMagic
        (ascii "error invalid spi frame"))

/-! ## The command scan -/

/-- A slash at this index starts a run of printable bytes up to the end of
the line or of the window. -/
def CommandAt (window : List UInt8) (i : ℕ) : Prop :=
  window[i]? = some 47 ∧
    ∀ b ∈ (window.drop i).takeWhile (fun b => !EndsLine b), Printable b

instance (window : List UInt8) (i : ℕ) : Decidable (CommandAt window i) :=
  inferInstanceAs (Decidable (_ ∧ _))

theorem printable_slash : Printable 47 := by decide

theorem scan_cons (b : UInt8) (rest : List UInt8) :
    scanAsciiCommand (b :: rest) =
      if CommandAt (b :: rest) 0 then
        some ((b :: rest).takeWhile fun b => !EndsLine b)
      else scanAsciiCommand rest := by
  have hiff : (b = 47 ∧
      validUtf8 ((b :: rest).takeWhile fun b => !EndsLine b) = true ∧
      ∀ byte ∈ (b :: rest).takeWhile (fun b => !EndsLine b),
        byte = 47 ∨ Printable byte) ↔ CommandAt (b :: rest) 0 := by
    constructor
    · rintro ⟨rfl, -, hall⟩
      refine ⟨rfl, fun byte hbyte => ?_⟩
      rcases hall byte hbyte with rfl | hprintable
      · exact printable_slash
      · exact hprintable
    · rintro ⟨hslash, hall⟩
      have hb : b = 47 := by simpa using hslash
      exact ⟨hb, validUtf8_of_ascii fun byte h => (hall byte h).ascii, fun byte h => .inr (hall byte h)⟩
  rw [scanAsciiCommand]
  simp only [hiff]

theorem scan_eq_none (window : List UInt8) :
    scanAsciiCommand window = none ↔ ∀ i, ¬CommandAt window i := by
  induction window with
  | nil => simp [scanAsciiCommand, CommandAt]
  | cons b rest ih =>
      rw [scan_cons]
      by_cases hhere : CommandAt (b :: rest) 0
      · rw [if_pos hhere]
        simp only [reduceCtorEq, false_iff, not_forall, not_not]
        exact ⟨0, hhere⟩
      · rw [if_neg hhere, ih]
        constructor
        · rintro hrest (_ | i)
          · exact hhere
          · exact hrest i
        · exact fun hall i => hall (i + 1)

/-- The zeros behind a short frame end its last line and hide nothing. -/
theorem commandAt_append_zeros (window : List UInt8) (n i : ℕ) :
    CommandAt (window ++ List.replicate n 0) i ↔ CommandAt window i := by
  by_cases hi : i < window.length
  · unfold CommandAt
    rw [List.getElem?_append_left hi, List.drop_append_of_le_length (by omega)]
    have hzeros : (List.replicate n (0 : UInt8)).takeWhile
        (fun b => !EndsLine b) = [] := by
      cases n <;> simp [List.replicate_succ, EndsLine]
    have hline : ((window.drop i) ++ List.replicate n 0).takeWhile
        (fun b => !EndsLine b) =
        (window.drop i).takeWhile (fun b => !EndsLine b) := by
      rw [List.takeWhile_append]
      split
      next hwhole =>
        rw [hzeros, List.append_nil]
        exact (List.IsPrefix.eq_of_length (List.takeWhile_prefix _) hwhole).symm
      next => rfl
    rw [hline]
  · have hnone : window[i]? = none := List.getElem?_eq_none (by omega)
    constructor
    · rintro ⟨hslash, -⟩
      rw [List.getElem?_append_right (by omega), List.getElem?_replicate]
        at hslash
      split at hslash <;> simp at hslash
    · rintro ⟨hslash, -⟩
      simp [hnone] at hslash

/-! ## A data frame on the bus -/

def dataFrame (payload : List UInt8) : Frame :=
  requestFrame (reqDataMagic, respDataMagic) payload

section DataFrame

variable {payload : List UInt8}

theorem toList_dataFrame (hmax : payload.length ≤ payloadMax) :
    (dataFrame payload).toList =
      framed (reqDataMagic, respDataMagic) payload ++
        List.replicate (frameSize - (frameHeaderSize + payload.length)) 0 :=
  toList_requestFrame hmax

theorem frameLen_dataFrame (hmax : payload.length ≤ payloadMax) :
    frameLen (dataFrame payload) = payload.length :=
  frameLen_requestFrame hmax

theorem parseRequestFrame_dataFrame (hmax : payload.length ≤ payloadMax) :
    parseRequestFrame (dataFrame payload) = some (.data payload) := by
  rw [parseRequestFrame, toList_dataFrame hmax]
  refine parseRequestBytes_framed_data ?_
  simp only [payloadMax, frameSize, frameHeaderSize] at hmax
  omega

theorem isStrictForwardFrame_dataFrame (hmax : payload.length ≤ payloadMax) :
    isStrictForwardFrame (dataFrame payload) = true := by
  obtain ⟨h0, h1⟩ :=
    @requestFrame_sync (reqDataMagic, respDataMagic) payload hmax
  have hsync : SyncPair ((dataFrame payload).byte 0)
      ((dataFrame payload).byte 1) := by
    rw [dataFrame, h0, h1]
    exact .inl rfl
  have hlen := frameLen_dataFrame hmax
  unfold isStrictForwardFrame
  rw [if_neg (not_not.mpr hsync), hlen, if_neg (by omega),
    toList_dataFrame hmax, ← length_framed (reqDataMagic, respDataMagic) payload,
    List.drop_left]
  simp

theorem asSlice_fromRawFrame_dataFrame (hmax : payload.length ≤ payloadMax) :
    (SpiFrame.fromRawFrame (dataFrame payload)).asSlice =
      framed (reqDataMagic, respDataMagic) payload := by
  have hlen : u16le ((dataFrame payload).byte 2) ((dataFrame payload).byte 3) =
      payload.length := frameLen_dataFrame hmax
  have hmin : min (frameHeaderSize + payload.length) frameSize =
      (framed (reqDataMagic, respDataMagic) payload).length := by
    rw [length_framed]
    simp only [payloadMax, frameSize, frameHeaderSize] at hmax ⊢
    omega
  simp only [SpiFrame.fromRawFrame, SpiFrame.asSlice, hlen, hmin,
    toList_dataFrame hmax]
  exact List.take_left

theorem verdict_dataFrame (hmax : payload.length ≤ payloadMax)
    (hpayload : payload ≠ []) (config : BridgeConfig)
    (runtime : CommandRuntime) (s : SpiTask) (written : ℕ) :
    s.verdict config runtime
        ⟨dataFrame payload, frameHeaderSize + payload.length, written⟩ =
      match extractAsciiCommand (dataFrame payload) with
      | some line =>
          if line = ascii "/pull" then .pull
          else .respond (commandResponse config runtime line)
      | none => .forward (SpiFrame.fromRawFrame (dataFrame payload)) := by
  have hresult : (s.afterTransfer
      ⟨dataFrame payload, frameHeaderSize + payload.length, written⟩).2 =
      .complete (dataFrame payload) := by
    have hfinish := @finishTransaction_requestFrame
      (reqDataMagic, respDataMagic) payload hmax (.inl rfl) s.transport
    simp only [SpiTask.afterTransfer]
    exact congrArg Prod.snd hfinish
  rw [SpiTask.verdict, hresult]
  cases hline : extractAsciiCommand (dataFrame payload) with
  | none =>
      simp only [finalizeTransaction, parseRequestFrame_dataFrame hmax,
        isStrictForwardFrame_dataFrame hmax, hpayload, hline, if_true, if_false]
  | some line =>
      simp only [finalizeTransaction, parseRequestFrame_dataFrame hmax, hline]

/-- The part of the payload inside the scanned window. -/
abbrev payloadWindow : ℕ := commandWindow - frameHeaderSize

/-- Nothing in the frame reads as a local command: neither the low length
byte nor any slash in the scanned part of the payload. -/
def HidesNoCommand (payload : List UInt8) : Prop :=
  payload.length ≠ 47 ∧ ∀ i, ¬CommandAt (payload.take payloadWindow) i

theorem extract_dataFrame (hmax : payload.length ≤ payloadMax) :
    extractAsciiCommand (dataFrame payload) = none ↔
      HidesNoCommand payload := by
  have hle : payload.length ≤ 256 := hmax
  have hwindow : (dataFrame payload).toList.take (min frameSize commandWindow) =
      reqDataMagic :: respDataMagic :: UInt8.ofNat payload.length ::
        UInt8.ofNat (payload.length / 256) ::
          (payload.take payloadWindow ++
            List.replicate (payloadWindow - payload.length) 0) := by
    rw [toList_dataFrame hmax, framed_append_eq]
    have hsplit : min frameSize commandWindow = payloadWindow + 1 + 1 + 1 + 1 :=
      rfl
    rw [hsplit]
    simp only [List.take_succ_cons, List.take_append, List.take_replicate]
    congr 5
    congr 1
    simp only [frameSize, frameHeaderSize, payloadWindow, commandWindow]
    omega
  have hlow : ∀ rest, CommandAt (UInt8.ofNat payload.length ::
      UInt8.ofNat (payload.length / 256) :: rest) 0 ↔ payload.length = 47 := by
    intro rest
    constructor
    · rintro ⟨hslash, -⟩
      have hbyte : UInt8.ofNat payload.length = 47 := by simpa using hslash
      have hnat := congrArg UInt8.toNat hbyte
      rw [UInt8.toNat_ofNat'] at hnat
      change payload.length % 2 ^ 8 = 47 at hnat
      omega
    · intro hlength
      rw [hlength]
      refine ⟨rfl, ?_⟩
      simp [EndsLine, printable_slash]
  have hhigh : ∀ rest, ¬CommandAt (UInt8.ofNat (payload.length / 256) :: rest)
      0 := by
    rintro rest ⟨hslash, -⟩
    have hbyte : UInt8.ofNat (payload.length / 256) = 47 := by simpa using hslash
    have hnat := congrArg UInt8.toNat hbyte
    rw [UInt8.toNat_ofNat'] at hnat
    change payload.length / 256 % 2 ^ 8 = 47 at hnat
    omega
  have hdata : ∀ rest, ¬CommandAt (reqDataMagic :: rest) 0 := by
    rintro rest ⟨hslash, -⟩
    simp [reqDataMagic] at hslash
  have hresp : ∀ rest, ¬CommandAt (respDataMagic :: rest) 0 := by
    rintro rest ⟨hslash, -⟩
    simp [respDataMagic] at hslash
  rw [extractAsciiCommand, hwindow, scan_eq_none]
  constructor
  · intro hall
    refine ⟨fun hlength => hall 2 ((hlow _).mpr hlength), fun i hi => ?_⟩
    exact hall (i + 4) ((commandAt_append_zeros _ _ i).mpr hi)
  · rintro ⟨hlength, hnone⟩ (_ | _ | _ | _ | i) hi
    · exact hdata _ hi
    · exact hresp _ hi
    · exact hlength ((hlow _).mp hi)
    · exact hhigh _ hi
    · exact hnone i ((commandAt_append_zeros _ _ i).mp hi)

end DataFrame

/-- A transaction takes the payload to the ingress queue, answers with the
empty data response and pulls nothing, and the session then writes exactly
this payload as one bridge frame. -/
structure CarriesPayload (config : BridgeConfig) (runtime : CommandRuntime)
    (s : SpiTask) (t : Transfer) (payload : List UInt8) (item : SpiFrame) :
    Prop where
  forwarded : s.verdict config runtime t = .forward item
  queued : ∃ dropped kept, s.ingress.contents = dropped ++ kept ∧
    (s.transaction config runtime t).ingress.contents =
      kept ++ [item.asSlice]
  staged : (s.transaction config runtime t).transport.stagedTx =
    emptyDataResponse
  unpulled : (s.transaction config runtime t).rxResp = s.rxResp
  handled : handleSpiRequest config runtime item true =
    .writeBridgeFrame payload
  written : (writeBridgeFrame payload).map List.flatten =
    some (bridgeFramed payload)

theorem carriesPayload_of_forward {payload : List UInt8}
    (hmax : payload.length ≤ payloadMax) (hpayload : payload ≠ [])
    (hfirst : payload.head? ≠ some 47) {config : BridgeConfig}
    {runtime : CommandRuntime} {s : SpiTask} {t : Transfer}
    (hforward : s.verdict config runtime t =
      .forward (SpiFrame.fromRawFrame (dataFrame payload))) :
    CarriesPayload config runtime s t payload
      (SpiFrame.fromRawFrame (dataFrame payload)) := by
  have hslice := asSlice_fromRawFrame_dataFrame hmax
  have hle : payload.length ≤ 256 := hmax
  have hingress : (s.afterTransfer t).1.ingress = s.ingress := rfl
  have hrxResp : (s.afterTransfer t).1.rxResp = s.rxResp := rfl
  refine ⟨hforward, ?_, ?_, ?_, ?_, writeBridgeFrame_flatten (by omega)⟩
  · simp only [SpiTask.transaction, hforward, SpiTask.perform, hingress]
    rw [(s.ingress.contents_pushOverwrite _).1]
    have hwire : QueueCodec.wire (SpiFrame.fromRawFrame (dataFrame payload)) =
        framed (reqDataMagic, respDataMagic) payload := hslice
    have hstorable : Fifo.Storable List.length ⟨queueDepth, queueBytes⟩
        (QueueCodec.wire (SpiFrame.fromRawFrame (dataFrame payload))) := by
      refine ⟨?_, ?_, ?_⟩ <;>
        simp only [hwire, length_framed, frameHeaderSize, queueDepth,
          queueBytes] <;> omega
    rw [Fifo.overwrite, dif_pos hstorable]
    exact ⟨_, _, (List.take_append_drop _ _).symm, rfl⟩
  · simp only [SpiTask.transaction, hforward, SpiTask.perform,
      PioSpiTransportState.stageResponse]
  · simp only [SpiTask.transaction, hforward, SpiTask.perform, hrxResp]
  · have hparse : parseRequestBytes
        (framed (reqDataMagic, respDataMagic) payload) = some (.data payload) := by
      have hframe := @parseRequestBytes_framed_data payload [] (by omega)
      rwa [List.append_nil] at hframe
    have hplain : looksLikeLocalCommand payload = false := by
      simp [looksLikeLocalCommand, hfirst]
    simp only [handleSpiRequest, hslice, hparse, hplain, Bool.false_eq_true,
      if_false, if_true, ne_eq, hpayload, not_false_eq_true]

theorem not_carriesPayload_of_command {payload line : List UInt8}
    (hmax : payload.length ≤ payloadMax) (hpayload : payload ≠ [])
    (hline : extractAsciiCommand (dataFrame payload) = some line)
    (config : BridgeConfig) (runtime : CommandRuntime) (s : SpiTask)
    (written : ℕ) (item : SpiFrame) :
    ¬CarriesPayload config runtime s
      ⟨dataFrame payload, frameHeaderSize + payload.length, written⟩
      payload item := by
  intro hcarries
  have hforward := hcarries.forwarded
  rw [verdict_dataFrame hmax hpayload, hline] at hforward
  simp only at hforward
  split at hforward <;> cases hforward

/-- A data frame is carried exactly when nothing in it reads as a local
command: its length is not 47, the byte of a slash, and no slash among the
first 92 payload bytes is followed by printable bytes up to the end of its
line, of the payload or of the scanned window. -/
theorem carriesPayload_iff (config : BridgeConfig) (runtime : CommandRuntime)
    (s : SpiTask) (payload : List UInt8) (written : ℕ)
    (hpos : 1 ≤ payload.length) (hmax : payload.length ≤ 256)
    (hfirst : payload.head? ≠ some 47) :
    (∃ item, CarriesPayload config runtime s
        ⟨dataFrame payload, frameHeaderSize + payload.length, written⟩
        payload item) ↔
      HidesNoCommand payload := by
  have hpayload : payload ≠ [] := List.length_pos_iff.mp hpos
  rw [← extract_dataFrame hmax]
  cases hline : extractAsciiCommand (dataFrame payload) with
  | none =>
      simp only [iff_true]
      refine ⟨_, carriesPayload_of_forward hmax hpayload hfirst ?_⟩
      rw [verdict_dataFrame hmax hpayload, hline]
  | some line =>
      simp only [reduceCtorEq, iff_false, not_exists]
      exact not_carriesPayload_of_command hmax hpayload hline config runtime s
        written

theorem carriesPayload_iff_hello :
    ∃ item, CarriesPayload BridgeConfig.spiServer CommandRuntime.idle
      SpiTask.start ⟨dataFrame (ascii "hello"), 9, 4⟩ (ascii "hello") item :=
  (carriesPayload_iff _ _ _ (ascii "hello") 4 (by decide) (by decide)
    (by decide)).mpr
    ⟨by decide, fun i hi => by
      have hbytes : ∀ b ∈ (ascii "hello").take payloadWindow, b ≠ 47 := by decide
      exact hbytes _ (List.mem_of_getElem? hi.1) rfl⟩

/-- A path in the payload is taken for a local command. -/
theorem slash_payload_not_carried :
    ¬∃ item, CarriesPayload BridgeConfig.spiServer CommandRuntime.idle
      SpiTask.start ⟨dataFrame (ascii "a/b"), 7, 4⟩ (ascii "a/b") item := by
  have hcommand : CommandAt ((ascii "a/b").take payloadWindow) 1 := by decide
  have hhides : ¬HidesNoCommand (ascii "a/b") := fun h => h.2 1 hcommand
  rw [← extract_dataFrame (by decide)] at hhides
  obtain ⟨line, hline⟩ := Option.ne_none_iff_exists'.mp hhides
  rintro ⟨item, hcarries⟩
  exact not_carriesPayload_of_command (by decide) (by decide) hline _ _ _ 4 item
    hcarries

end Spi
end PicoFi
