import PicoFi.CheckedReads
import PicoFi.SpiTask

/-!
# Shifted and truncated captures

The receive buffer may start with zeros clocked before the request, and a
request may be cut off.  A shifted request is recovered whole.  A truncated
one is told apart from a complete one only when more than four bytes of
payload were announced, because eight bytes are scanned in any case.  No
buffer makes the classification index out of range.
-/

namespace PicoFi
namespace Spi

open Buffer LinkFrame Mailbox

/-! ## Truncated requests -/

section Truncated

variable {pair : UInt8 × UInt8} {payload : List UInt8} {r : ℕ}

/-- The receive buffer after the first `r` bytes of a frame. -/
def truncated (pair : UInt8 × UInt8) (payload : List UInt8) (r : ℕ) : Frame :=
  FixedBytes.padded ((framed pair payload).take r)

theorem toList_truncated (hr : 4 ≤ r) (hmax : payload.length ≤ payloadMax) :
    ∃ rest, (truncated pair payload r).toList =
      [pair.1, pair.2, UInt8.ofNat payload.length, UInt8.ofNat (payload.length / 256)] ++
        rest := by
  simp only [payloadMax, frameSize, frameHeaderSize] at hmax
  have hlength := @length_framed pair payload
  simp only [frameHeaderSize] at hlength
  obtain ⟨m, rfl⟩ : ∃ m, r = m + 4 := ⟨r - 4, by omega⟩
  have hframed := framed_append_eq pair payload []
  rw [List.append_nil, List.append_nil] at hframed
  rw [truncated, FixedBytes.toList_padded _ (by simp only [List.length_take, frameSize]; omega),
    hframed]
  exact ⟨_, rfl⟩

theorem truncated_sync (hr : 4 ≤ r) (hmax : payload.length ≤ payloadMax)
    (hpair : SyncPair pair.1 pair.2) :
    SyncPair ((truncated pair payload r).byte 0) ((truncated pair payload r).byte 1) := by
  obtain ⟨rest, hlist⟩ := @toList_truncated pair payload r hr hmax
  simpa [FixedBytes.byte, hlist] using hpair

theorem frameLen_truncated (hr : 4 ≤ r) (hmax : payload.length ≤ payloadMax) :
    frameLen (truncated pair payload r) = payload.length := by
  obtain ⟨rest, hlist⟩ := @toList_truncated pair payload r hr hmax
  simp only [payloadMax, frameSize, frameHeaderSize] at hmax
  have hword := @u16le_ofNat payload.length (by omega)
  simpa [frameLen, FixedBytes.byte, hlist] using hword

theorem finishTransaction_truncated (hr : 4 ≤ r ∧ r < 4 + payload.length)
    (hmax : payload.length ≤ payloadMax) (hpair : SyncPair pair.1 pair.2)
    (transport : PioSpiTransportState) :
    (transport.finishTransaction (truncated pair payload r) r).2 =
      if 5 ≤ payload.length then
        .partialFrame r (payload.length + 4) (truncated pair payload r)
      else .complete (truncated pair payload r) := by
  have hsync := truncated_sync hr.1 hmax hpair
  have hnormal := @normalizeRequestFrame_sync _ r hsync
  simp only [payloadMax, frameSize, frameHeaderSize] at hmax
  have hcount : min r frameSize = r := Nat.min_eq_left (by simp only [frameSize]; omega)
  have hexpected : min (payload.length + frameHeaderSize) frameSize = payload.length + 4 :=
    Nat.min_eq_left (by simp only [frameSize, frameHeaderSize]; omega)
  rw [hcount] at hnormal
  rw [finishTransaction_of_sync hnormal hsync hr.1, frameLen_truncated hr.1 hmax, hexpected]
  -- Eight bytes are scanned even when fewer were received.
  have hscan : payload.length + 4 ≤ max (min (max r 8) frameSize) r ↔
      ¬5 ≤ payload.length := by
    simp only [frameSize]
    omega
  by_cases hlong : 5 ≤ payload.length
  · rw [if_pos hlong, if_neg (fun h => hscan.mp h hlong)]
  · rw [if_neg hlong, if_pos (hscan.mpr hlong)]

/-- A partial frame is answered or pulls, and forwards nothing. -/
theorem partial_not_forward (config : BridgeConfig) (runtime : CommandRuntime)
    (received expected : ℕ) (frame : Frame) (item : SpiFrame) :
    finalizeTransaction config runtime (.partialFrame received expected frame) ≠
      .forward item := by
  unfold finalizeTransaction
  dsimp only
  split
  · split
    · simp
    · split <;> simp
  · simp

/-- A truncated request fails closed exactly when it announces at least five
bytes. -/
theorem truncated_request_fails_closed_iff
    (hmax : payload.length ≤ payloadMax) (hr : 4 ≤ r ∧ r < 4 + payload.length)
    (hpair : SyncPair pair.1 pair.2) (transport : PioSpiTransportState)
    (config : BridgeConfig) (runtime : CommandRuntime) :
    let result := (transport.finishTransaction (truncated pair payload r) r).2
    ((∀ frame, result ≠ .complete frame) ∧
        ∀ item, finalizeTransaction config runtime result ≠ .forward item) ↔
      5 ≤ payload.length := by
  intro result
  have hresult : result = _ := finishTransaction_truncated hr hmax hpair transport
  by_cases hlong : 5 ≤ payload.length
  · rw [if_pos hlong] at hresult
    rw [hresult]
    exact ⟨fun _ => hlong, fun _ => ⟨by simp, partial_not_forward config runtime _ _ _⟩⟩
  · rw [if_neg hlong] at hresult
    exact ⟨fun h => absurd hresult (h.1 _), fun h => absurd h hlong⟩

theorem truncated_five_bytes_fails_closed :
    let result := (PioSpiTransportState.new.finishTransaction
      (truncated (reqDataMagic, respDataMagic) [1, 2, 3, 4, 5] 4) 4).2
    ((∀ frame, result ≠ .complete frame) ∧
        ∀ item, finalizeTransaction .spiServer CommandRuntime.idle result ≠ .forward item) ↔
      5 ≤ [1, 2, 3, 4, 5].length :=
  truncated_request_fails_closed_iff (by decide) (by decide) (.inl rfl) _ _ _

/-- The header of a request for one byte is taken for the whole request. -/
theorem truncated_one_byte_complete :
    ¬∀ (pair : UInt8 × UInt8) (payload : List UInt8) (r : ℕ)
        (transport : PioSpiTransportState) (config : BridgeConfig)
        (runtime : CommandRuntime),
      SyncPair pair.1 pair.2 → 1 ≤ payload.length → payload.length ≤ 256 →
      4 ≤ r → r < 4 + payload.length →
      let result := (transport.finishTransaction (truncated pair payload r) r).2
      (∀ frame, result ≠ .complete frame) ∧
        ∀ item, finalizeTransaction config runtime result ≠ .forward item := by
  intro hall
  have hresult := @finishTransaction_truncated (reqDataMagic, respDataMagic) [97] 4
    (by decide) (by decide) (.inl rfl) PioSpiTransportState.new
  exact (hall (reqDataMagic, respDataMagic) [97] 4 .new .spiServer CommandRuntime.idle
    (.inl rfl) (by decide) (by decide) (by decide) (by decide)).1 _ hresult

end Truncated

/-! ## Shifted requests -/

section Shifted

variable {pair : UInt8 × UInt8} {payload : List UInt8} {k : ℕ}

/-- The receive buffer when `k` zero bytes were clocked before a frame. -/
def shifted (k : ℕ) (pair : UInt8 × UInt8) (payload : List UInt8) : Frame :=
  FixedBytes.padded (List.replicate k 0 ++ framed pair payload)

theorem toList_shifted (hfit : k + 4 + payload.length ≤ 260) :
    (shifted k pair payload).toList =
      List.replicate k 0 ++ (framed pair payload ++
        List.replicate (frameSize - (k + 4 + payload.length)) 0) := by
  have hlength := @length_framed pair payload
  simp only [frameHeaderSize] at hlength
  rw [shifted, FixedBytes.toList_padded _ (by simp [hlength, frameSize]; omega),
    List.append_assoc, List.length_append, List.length_replicate, hlength]
  congr 3
  omega

theorem byte_shifted_zero (hfit : k + 4 + payload.length ≤ 260) {i : ℕ} (hi : i < k) :
    (shifted k pair payload).byte i = 0 := by
  simp [FixedBytes.byte, toList_shifted hfit, List.getElem?_append_left, hi]

theorem byte_shifted_sync (hfit : k + 4 + payload.length ≤ 260) :
    (shifted k pair payload).byte k = pair.1 ∧
      (shifted k pair payload).byte (k + 1) = pair.2 := by
  have hread : ∀ i, (shifted k pair payload).byte (k + i) =
      (framed pair payload ++
        List.replicate (frameSize - (k + 4 + payload.length)) 0).getD i 0 := by
    intro i
    simp [FixedBytes.byte, toList_shifted hfit, List.getElem?_append_right]
  have hfirst := hread 0
  have hsecond := hread 1
  rw [framed_append_eq] at hfirst hsecond
  exact ⟨hfirst, hsecond⟩

theorem not_syncPair_zero (b : UInt8) : ¬SyncPair 0 b := fun h => h.first_ne_zero rfl

theorem padded_drop_shifted (hfit : k + 4 + payload.length ≤ 260) :
    (FixedBytes.padded ((shifted k pair payload).toList.drop k) : Frame) =
      requestFrame pair payload := by
  have hlength := @length_framed pair payload
  simp only [frameHeaderSize] at hlength
  rw [toList_shifted hfit, List.drop_left' List.length_replicate,
    FixedBytes.padded_append_zeros (by simp only [hlength, frameSize]; omega)]
  rfl

/-- The shifted frame moves to the front; at least its own bytes count as
received. -/
theorem normalizeRequestFrame_shifted (hfit : k + 4 + payload.length ≤ 260)
    (hpair : SyncPair pair.1 pair.2) :
    ∃ received, 4 + payload.length ≤ received ∧
      normalizeRequestFrame (shifted k pair payload) (k + 4 + payload.length) =
        (requestFrame pair payload, received) := by
  obtain ⟨hfirst, hsecond⟩ := @byte_shifted_sync pair payload k hfit
  have hcount : min (k + 4 + payload.length) frameSize = k + 4 + payload.length :=
    Nat.min_eq_left hfit
  rcases Nat.eq_zero_or_pos k with rfl | hk
  · refine ⟨4 + payload.length, le_rfl, ?_⟩
    rw [normalizeRequestFrame_sync (by rw [hfirst, hsecond]; exact hpair), hcount,
      Nat.zero_add]
    rfl
  · have hzero := @byte_shifted_zero pair payload k hfit 0 hk
    have hrecover : ∀ received scanLen, recoverMissingMagicCommandFrame
        (shifted k pair payload) received scanLen = none := by
      intro received scanLen
      simp [recoverMissingMagicCommandFrame, hzero]
    have hscan : (List.range' 1 (min (max (k + 4 + payload.length) 8) frameSize - 1)).find?
        (fun offset => SyncPair ((shifted k pair payload).byte offset)
          ((shifted k pair payload).byte (offset + 1))) = some k := by
      rw [List.find?_range'_eq_some]
      refine ⟨by simpa [hfirst, hsecond] using hpair, ?_, ?_⟩
      · simp only [List.mem_range'_1, frameSize]
        omega
      · intro j _ hj
        rw [byte_shifted_zero hfit hj]
        simpa using not_syncPair_zero _
    unfold normalizeRequestFrame
    simp only [hcount, hzero, if_neg (not_syncPair_zero _), hrecover, hscan,
      padded_drop_shifted hfit]
    refine ⟨_, ?_, rfl⟩
    simp only [frameSize]
    omega

theorem parseRequestFrame_requestFrame (hmax : payload.length ≤ payloadMax)
    (hpair : SyncPair pair.1 pair.2) :
    parseRequestFrame (requestFrame pair payload) =
      some (if pair = (reqDataMagic, respDataMagic) then .data payload
        else .command payload) := by
  have hword : payload.length < 65536 := by
    simp only [payloadMax, frameSize, frameHeaderSize] at hmax
    omega
  rw [parseRequestFrame, toList_requestFrame hmax]
  rcases hpair with hdata | hcommand
  · obtain rfl : pair = (reqDataMagic, respDataMagic) := hdata
    rw [if_pos rfl, parseRequestBytes_framed_data hword]
  · obtain rfl : pair = (reqCommandMagic, respCommandMagic) := hcommand
    rw [if_neg (by decide), parseRequestBytes_framed_command hword]

theorem finishTransaction_shifted (hfit : k + 4 + payload.length ≤ 260)
    (hpair : SyncPair pair.1 pair.2) (transport : PioSpiTransportState) :
    transport.finishTransaction (shifted k pair payload) (k + 4 + payload.length) =
      (⟨emptyDataResponse⟩, .complete (requestFrame pair payload)) := by
  have hmax : payload.length ≤ payloadMax := by
    simp only [payloadMax, frameSize, frameHeaderSize]
    omega
  obtain ⟨received, hreceived, hnormal⟩ := normalizeRequestFrame_shifted hfit hpair
  obtain ⟨h0, h1⟩ := @requestFrame_sync pair payload hmax
  have hsync : SyncPair ((requestFrame pair payload).byte 0)
      ((requestFrame pair payload).byte 1) := by rwa [h0, h1]
  rw [finishTransaction_of_sync hnormal hsync (by omega), frameLen_requestFrame hmax, if_pos]
  simp only [frameHeaderSize, frameSize]
  omega

end Shifted

/-! ## Every index of the classification -/

/-- The recovery with its indices checked; `none` is a panic. -/
def recoverMissingMagicCommandFrame? (rx : Frame) (received scanLen : ℕ) :
    Option (Option (Frame × ℕ)) := do
  let len := (← rx.toList[0]?).toNat
  if len = 0 ∨ payloadMax < len then return none
  if (← rx.toList[1]?).toNat ≠ len then return none
  if scanLen < 3 then return none
  let normalized : Frame := FixedBytes.padded []
  let normalized ← normalized.write? 0 [reqCommandMagic]
  let normalized ← normalized.write? 1 [respCommandMagic]
  let normalized ← normalized.write? 2 (le16 len)
  let normalized ← normalized.write? 4 (← slice? rx.toList 2 (2 + len))
  return some (normalized, max (min (len + frameHeaderSize) frameSize) received)

/-- The scan for a sync pair; the byte after the last one reads as zero. -/
def findSync? (rx : Frame) : List ℕ → Option (Option ℕ)
  | [] => some none
  | offset :: offsets => do
      let first ← rx.toList[offset]?
      let second := (rx.toList[offset + 1]?).getD 0
      if SyncPair first second then return some offset
      findSync? rx offsets

def normalizeRequestFrame? (rx : Frame) (received : ℕ) : Option (Frame × ℕ) := do
  let received := min received frameSize
  let scanLen := min (max received 8) frameSize
  if SyncPair (← rx.toList[0]?) (← rx.toList[1]?) then return (rx, received)
  match ← recoverMissingMagicCommandFrame? rx received scanLen with
  | some recovered => return recovered
  | none =>
      match ← findSync? rx (List.range' 1 (scanLen - 1)) with
      | some offset =>
          let normalized : Frame := FixedBytes.padded []
          let normalized ← normalized.write? 0 (← slice? rx.toList offset frameSize)
          return (normalized, min (max (received - offset) (scanLen - offset)) frameSize)
      | none => return (rx, received)

def finishTransaction? (rx : Frame) (received : ℕ) :
    Option (PioSpiTransportState × TransactionResult) := do
  let (rx, received) ← normalizeRequestFrame? rx received
  let scanLen := min (max received 8) frameSize
  let preview : FixedBytes 8 := FixedBytes.padded []
  let preview ← preview.write? 0 (← slice? rx.toList 0 (min scanLen 8))
  let sync ← slice? rx.toList 0 2
  let expected ←
    if frameHeaderSize ≤ received ∨ sync ≠ [0, 0] then do
      let low ← rx.toList[2]?
      let high ← rx.toList[3]?
      pure (min (u16le low high + frameHeaderSize) frameSize)
    else pure frameSize
  let result : TransactionResult :=
    if (rx.toList.take scanLen).all (· == 0) then .idlePoll received preview.toList
    else if expected ≤ frameSize ∧ expected ≤ max scanLen received then
      .complete rx
    else .partialFrame received expected rx
  return (⟨emptyDataResponse⟩, result)

theorem recover?_eq (rx : Frame) (received scanLen : ℕ) :
    recoverMissingMagicCommandFrame? rx received scanLen =
      some (recoverMissingMagicCommandFrame rx received scanLen) := by
  have h0 := rx.getElem?_toList (show 0 < frameSize by decide)
  have h1 := rx.getElem?_toList (show 1 < frameSize by decide)
  unfold recoverMissingMagicCommandFrame? recoverMissingMagicCommandFrame
  simp only [h0, h1, Option.bind_eq_bind, Option.bind_some, Option.pure_def]
  split
  next => rfl
  next hlen =>
    split
    next => rfl
    next =>
      split
      next => rfl
      next =>
        -- The copied bytes start at the third one and may reach the end.
        have hbound := (rx.byte 0).toNat_lt
        have hstop : 2 + (rx.byte 0).toNat ≤ rx.toList.length := by
          rw [rx.length_toList]
          simp only [frameSize]
          omega
        have hcopied := @length_slice _ rx.toList 2 _ hstop
        have hmagic := @FixedBytes.write?_padded frameSize [] [reqCommandMagic] (by decide)
        have hecho := @FixedBytes.write?_padded frameSize [reqCommandMagic]
          [respCommandMagic] (by decide)
        have hword := @FixedBytes.write?_padded frameSize
          [reqCommandMagic, respCommandMagic] (le16 (rx.byte 0).toNat) (by simp [frameSize])
        have hpayload := @FixedBytes.write?_padded frameSize
          ([reqCommandMagic, respCommandMagic] ++ le16 (rx.byte 0).toNat)
          (slice rx.toList 2 (2 + (rx.byte 0).toNat))
          (by simp [hcopied, frameSize]; omega)
        have hslice := slice?_eq_some (Nat.le_add_right 2 _) hstop
        simp only [List.length_nil, List.nil_append] at hmagic
        simp only [List.length_singleton, List.singleton_append] at hecho
        simp only [List.length_cons, List.length_nil] at hword
        simp only [List.length_append, List.length_cons, List.length_nil, length_le16] at hpayload
        simp only [hmagic, hecho, hword, hslice, hpayload, Option.bind_some]

theorem findSync?_eq (rx : Frame) {offsets : List ℕ} (hoffsets : ∀ o ∈ offsets, o < frameSize) :
    findSync? rx offsets = some (offsets.find? fun offset =>
      SyncPair (rx.byte offset) (rx.byte (offset + 1))) := by
  induction offsets with
  | nil => rfl
  | cons offset offsets ih =>
      have hoffset := rx.getElem?_toList (hoffsets offset List.mem_cons_self)
      have hnext : (rx.toList[offset + 1]?).getD 0 = rx.byte (offset + 1) :=
        (List.getD_eq_getElem?_getD ..).symm
      rw [findSync?, hoffset, List.find?_cons]
      simp only [Option.bind_eq_bind, Option.bind_some, Option.pure_def, hnext]
      by_cases hsync : SyncPair (rx.byte offset) (rx.byte (offset + 1))
      · simp [hsync]
      · simp only [hsync, if_false, decide_false]
        exact ih fun o ho => hoffsets o (List.mem_cons_of_mem offset ho)

theorem normalizeRequestFrame?_eq (rx : Frame) (received : ℕ) :
    normalizeRequestFrame? rx received = some (normalizeRequestFrame rx received) := by
  have h0 := rx.getElem?_toList (show 0 < frameSize by decide)
  have h1 := rx.getElem?_toList (show 1 < frameSize by decide)
  have hsync := @findSync?_eq rx
    (List.range' 1 (min (max (min received frameSize) 8) frameSize - 1)) (by
      intro offset hoffset
      rw [List.mem_range'_1] at hoffset
      simp only [frameSize] at hoffset ⊢
      omega)
  unfold normalizeRequestFrame? normalizeRequestFrame
  simp only [h0, h1, recover?_eq, hsync, Option.bind_eq_bind, Option.bind_some,
    Option.pure_def]
  split
  next => rfl
  next =>
    cases recoverMissingMagicCommandFrame rx (min received frameSize)
        (min (max (min received frameSize) 8) frameSize) with
    | some recovered => rfl
    | none =>
        cases hfound : (List.range' 1 (min (max (min received frameSize) 8) frameSize - 1)).find?
            (fun offset => SyncPair (rx.byte offset) (rx.byte (offset + 1))) with
        | none => rfl
        | some offset =>
            -- The rest of the buffer is copied from the pair on.
            have hoffset : offset ≤ frameSize := by
              have hmem := List.mem_of_find?_eq_some hfound
              rw [List.mem_range'_1] at hmem
              simp only [frameSize] at hmem ⊢
              omega
            have hlength := rx.length_toList
            have hslice := slice?_eq_some hoffset (Nat.le_of_eq hlength.symm)
            have hcopied : slice rx.toList offset frameSize = rx.toList.drop offset := by
              rw [slice, List.take_of_length_le hlength.le]
            have hwrite := @FixedBytes.write?_padded frameSize [] (rx.toList.drop offset)
              (by simp [hlength])
            simp only [List.length_nil, List.nil_append] at hwrite
            simp only [hslice, hcopied, hwrite, Option.bind_some]

/-- The whole classification reads and writes inside its buffers. -/
theorem finishTransaction?_eq (transport : PioSpiTransportState) (rx : Frame) (received : ℕ) :
    finishTransaction? rx received = some (transport.finishTransaction rx received) := by
  unfold finishTransaction? PioSpiTransportState.finishTransaction
  rw [normalizeRequestFrame?_eq]
  generalize normalizeRequestFrame rx received = normal
  obtain ⟨rx, received⟩ := normal
  have hlength := rx.length_toList
  have hscan : min (min (max received 8) frameSize) 8 = 8 := by
    simp only [frameSize]
    omega
  have height : (rx.toList.take 8).length = 8 := by simp [hlength, frameSize]
  have hpreview := @slice?_eq_some _ rx.toList _ _ (Nat.zero_le 8) (by simp [hlength, frameSize])
  have hwrite := @FixedBytes.write?_padded 8 [] (rx.toList.take 8) (by simp)
  have hpadded := @FixedBytes.toList_padded 8 (rx.toList.take 8) height.le
  rw [height, Nat.sub_self, List.replicate_zero, List.append_nil] at hpadded
  simp only [List.length_nil, List.nil_append] at hwrite
  have hpair := @slice?_eq_some _ rx.toList _ _ (Nat.zero_le 2) (by simp [hlength, frameSize])
  have hzero : rx.toList.take 2 ≠ [0, 0] ↔ ¬(rx.byte 0 = 0 ∧ rx.byte 1 = 0) := by
    rw [← slice_zero, slice_two (by simp [hlength, frameSize])]
    simp [FixedBytes.byte]
  have h2 := rx.getElem?_toList (show 2 < frameSize by decide)
  have h3 := rx.getElem?_toList (show 3 < frameSize by decide)
  simp only [hscan, hpreview, slice_zero, hwrite, hpair, h2, h3, Option.bind_eq_bind,
    Option.bind_some, Option.pure_def, hpadded, hzero]
  by_cases hheader : frameHeaderSize ≤ received ∨ ¬(rx.byte 0 = 0 ∧ rx.byte 1 = 0)
  · simp only [if_pos hheader, frameLen]
  · simp only [if_neg hheader]

/-- A request that follows zeros is recovered whole, and no buffer makes the
classification index out of range. -/
theorem shifted_request_recovered :
    (∀ (pair : UInt8 × UInt8) (payload : List UInt8) (k : ℕ)
        (transport : PioSpiTransportState),
      SyncPair pair.1 pair.2 → payload.length ≤ 256 → k + 4 + payload.length ≤ 260 →
        transport.finishTransaction (shifted k pair payload) (k + 4 + payload.length) =
            (⟨emptyDataResponse⟩, .complete (requestFrame pair payload)) ∧
          parseRequestFrame (requestFrame pair payload) =
            some (if pair = (reqDataMagic, respDataMagic) then .data payload
              else .command payload)) ∧
      ∀ (transport : PioSpiTransportState) (rx : Frame) (received : ℕ),
        finishTransaction? rx received = some (transport.finishTransaction rx received) :=
  ⟨fun _ _ _ transport hpair hmax hfit =>
      ⟨finishTransaction_shifted hfit hpair transport,
        parseRequestFrame_requestFrame hmax hpair⟩,
    finishTransaction?_eq⟩

theorem shifted_ping_recovered :
    PioSpiTransportState.new.finishTransaction
        (shifted 3 (reqCommandMagic, respCommandMagic) [112, 105, 110, 103]) 11 =
      (⟨emptyDataResponse⟩,
        .complete (requestFrame (reqCommandMagic, respCommandMagic) [112, 105, 110, 103])) :=
  (shifted_request_recovered.1 (reqCommandMagic, respCommandMagic) [112, 105, 110, 103] 3 .new
    (.inr rfl) (by decide) (by decide)).1

end Spi
end PicoFi
