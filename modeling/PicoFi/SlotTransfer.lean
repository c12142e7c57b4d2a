import PicoFi.I2cHost
import PicoFi.I2cTask

/-!
# Packets across the I2C slots

The firmware and the two host programs cut packets into slots and put them
together again, each in its own code.  What all of them handle is the list of
slots of a `Message`: both encoders produce it, and each of the three readers
takes it back to the message.
-/

namespace PicoFi
namespace I2c

open Buffer LinkFrame Mailbox

/-! ## The slots as bytes -/

/-- Both encoders write the same 32 bytes. -/
theorem encodeSlot_eq_host
    (kind flags : UInt8) (id : UInt16) (offset total : ℕ) {data : List UInt8}
    (hdata : data.length ≤ slotPayloadSize) :
    encodeSlot kind flags id offset total data.length (FixedBytes.padded data) =
      I2cHost.encodeSlot kind flags id offset total data := by
  have htake : (FixedBytes.padded data :
      FixedBytes slotPayloadSize).toList.take data.length = data := by
    rw [FixedBytes.toList_padded _ hdata, List.take_left]
  unfold encodeSlot I2cHost.encodeSlot
  rw [htake, FixedBytes.toList_padded _ hdata]
  simp only [List.append_assoc]
  rfl

/-- The fields every decoder looks at. -/
structure Carries (raw : List UInt8) (kind flags : UInt8) (id : UInt16)
    (offset total : ℕ) (data : List UInt8) : Prop where
  length_eq : raw.length = slotSize
  magic0_eq : raw.getD 0 0 = slotMagic0
  magic1_eq : raw.getD 1 0 = slotMagic1
  version_eq : raw.getD 2 0 = slotVersion
  kind_eq : raw.getD 3 0 = kind
  flags_eq : raw.getD 4 0 = flags
  offset_eq : u32le (raw.getD 6 0) (raw.getD 7 0) (raw.getD 8 0)
    (raw.getD 9 0) = offset
  totalLen_eq : u32le (raw.getD 10 0) (raw.getD 11 0) (raw.getD 12 0)
    (raw.getD 13 0) = total
  dataLen_eq : u16le (raw.getD 14 0) (raw.getD 15 0) = data.length
  transferId_eq : u16le (raw.getD 16 0) (raw.getD 17 0) = id.toNat
  data_eq : slice raw slotHeaderSize (slotHeaderSize + data.length) = data
  some_nonzero : raw.all (· == 0x00) = false
  some_low : raw.all (· == 0xFF) = false

section Decode

variable {raw : List UInt8} {kind flags : UInt8} {id : UInt16}
  {offset total : ℕ} {data : List UInt8}

theorem carries_encodeSlot
    (hdata : data.length ≤ slotPayloadSize) (hoffset : offset < 4294967296)
    (htotal : total < 4294967296) :
    Carries (I2cHost.encodeSlot kind flags id offset total data) kind flags id
      offset total data := by
  have hlen : data.length ≤ 14 := hdata
  constructor
  case length_eq =>
    simp only [I2cHost.encodeSlot, le32, le16, List.length_append,
      List.length_cons, List.length_nil, List.length_replicate, slotSize,
      I2cHost.slotPayloadSize, I2cHost.slotSize, I2cHost.slotHeaderSize]
    omega
  case offset_eq => exact u32le_ofNat hoffset
  case totalLen_eq => exact u32le_ofNat htotal
  case dataLen_eq => exact u16le_ofNat (by omega)
  case transferId_eq => exact u16le_ofNat id.toNat_lt
  case data_eq =>
    obtain ⟨header, hheader, hslot⟩ : ∃ header : List UInt8,
        header.length = slotHeaderSize ∧
          I2cHost.encodeSlot kind flags id offset total data =
            header ++ (data ++
              List.replicate (I2cHost.slotPayloadSize - data.length) 0) :=
      ⟨_, rfl, List.append_assoc _ data _⟩
    rw [hslot, slice_append_right (by rw [hheader]), hheader, Nat.sub_self,
      Nat.add_sub_cancel_left, slice_zero, List.take_left]
  all_goals rfl

theorem Carries.decodeSlot
    (hraw : Carries raw kind flags id offset total data)
    (hdata : data.length ≤ slotPayloadSize) (hkind : kind ≠ kindIdle) :
    decodeSlot raw =
      .ok (some ⟨kind, flags, id, offset, total, data.length,
        FixedBytes.padded data, hdata⟩) := by
  have hid : UInt16.ofNat (u16le (raw.getD 16 0) (raw.getD 17 0)) = id := by
    rw [hraw.transferId_eq, UInt16.ofNat_toNat]
  have hlong : ¬slotPayloadSize < data.length := Nat.not_lt.mpr hdata
  unfold I2c.decodeSlot
  simp only [hraw.length_eq, hraw.some_nonzero, hraw.some_low, hraw.magic0_eq,
    hraw.magic1_eq, hraw.version_eq, hraw.kind_eq, hraw.flags_eq, hid,
    hraw.offset_eq, hraw.totalLen_eq, hraw.dataLen_eq, hraw.data_eq, hkind, hlong,
    ne_eq, not_true, if_false, or_self, Bool.false_eq_true, dite_false]

theorem Carries.decodeSlot_host
    (hraw : Carries raw kind flags id offset total data)
    (hdata : data.length ≤ slotPayloadSize) (hkind : kind ≠ kindIdle) :
    I2cHost.decodeSlot raw =
      .ok (some ⟨kind, flags, id, offset, total, data⟩) := by
  have hid : UInt16.ofNat (u16le (raw.getD 16 0) (raw.getD 17 0)) = id := by
    rw [hraw.transferId_eq, UInt16.ofNat_toNat]
  have hlong : ¬I2cHost.slotPayloadSize < data.length := Nat.not_lt.mpr hdata
  have hmagic0 : raw.getD 0 0 = I2cHost.slotMagic0 := hraw.magic0_eq
  have hmagic1 : raw.getD 1 0 = I2cHost.slotMagic1 := hraw.magic1_eq
  have hversion : raw.getD 2 0 = I2cHost.slotVersion := hraw.version_eq
  have hbusy : kind ≠ I2cHost.kindIdle := hkind
  unfold I2cHost.decodeSlot
  simp only [hraw.some_nonzero, hraw.some_low, hmagic0, hmagic1, hversion,
    hraw.kind_eq, hraw.flags_eq, hid, hraw.offset_eq, hraw.totalLen_eq,
    hraw.dataLen_eq, hraw.data_eq, hbusy, hlong, ne_eq, not_true, if_false,
    or_self, Bool.false_eq_true]

theorem Carries.decodeSlot_python
    (hraw : Carries raw kind flags id offset total data)
    (hdata : data.length ≤ slotPayloadSize) (hkind : kind ≠ kindIdle) :
    I2cHost.Python.decodeSlot raw =
      .ok (some ⟨kind, flags, id.toNat, offset, total, data⟩) := by
  have hlong : ¬I2cHost.Python.payloadSize < data.length := Nat.not_lt.mpr hdata
  have hmagic0 : raw.getD 0 0 = I2cHost.Python.magic0 := hraw.magic0_eq
  have hmagic1 : raw.getD 1 0 = I2cHost.Python.magic1 := hraw.magic1_eq
  have hversion : raw.getD 2 0 = I2cHost.Python.version := hraw.version_eq
  have hbusy : kind ≠ I2cHost.kindIdle := hkind
  unfold I2cHost.Python.decodeSlot
  simp only [hraw.length_eq, hraw.some_nonzero, hraw.some_low, hmagic0, hmagic1,
    hversion, hraw.kind_eq, hraw.flags_eq, hraw.transferId_eq, hraw.offset_eq,
    hraw.totalLen_eq, hraw.dataLen_eq, hraw.data_eq, hbusy, hlong, ne_eq,
    not_true, if_false, or_self, Bool.false_eq_true]

end Decode

/-! ## Slots that carry nothing -/

/-- All zeros, all ones, or a slot of the idle kind. -/
def IsIdleSlot (raw : List UInt8) : Prop :=
  raw.length = slotSize ∧
    ((∀ b ∈ raw, b = 0x00) ∨ (∀ b ∈ raw, b = 0xFF) ∨
      (raw.take 3 = [slotMagic0, slotMagic1, slotVersion] ∧
        raw.getD 3 0 = kindIdle))

/-- An idle slot is filled with one byte, or it has the magic and no kind. -/
theorem IsIdleSlot.filled_or_magic {raw : List UInt8} (hidle : IsIdleSlot raw) :
    (raw.all (· == 0x00) = true ∨ raw.all (· == 0xFF) = true) ∨
      ∃ rest, raw = slotMagic0 :: slotMagic1 :: slotVersion :: rest ∧
        raw.getD 3 0 = kindIdle := by
  rcases hidle.2 with hzero | hones | ⟨hmagic, hkind⟩
  · exact .inl (.inl (by simpa using hzero))
  · exact .inl (.inr (by simpa using hones))
  · match raw, hmagic with
    | b0 :: b1 :: b2 :: rest, hmagic =>
        cases hmagic
        exact .inr ⟨rest, rfl, hkind⟩

theorem IsIdleSlot.decodeSlot
    {raw : List UInt8} (hidle : IsIdleSlot raw) : decodeSlot raw = .ok none := by
  have hsize : ¬raw.length ≠ slotSize := not_not.mpr hidle.1
  unfold I2c.decodeSlot
  simp only [hsize, if_false]
  rcases hidle.filled_or_magic with hfilled | ⟨rest, rfl, hkind⟩
  · rw [if_pos hfilled]
  · split
    · rfl
    · rw [if_neg (by simp)]

/-! ## The slots of a message -/

namespace Message

variable {m : Message} {i : ℕ}

def chunk (m : Message) (i : ℕ) : List UInt8 :=
  slice m.payload (slotPayloadSize * i) (slotPayloadSize * i + slotPayloadSize)

theorem length_chunk :
    (m.chunk i).length =
      min (m.payload.length - slotPayloadSize * i) slotPayloadSize := by
  rw [chunk, slice, List.length_drop, List.length_take]
  omega

theorem length_chunk_le : (m.chunk i).length ≤ slotPayloadSize := by
  rw [length_chunk]
  exact Nat.min_le_right _ _

theorem take_append_chunk :
    m.payload.take (slotPayloadSize * i) ++ m.chunk i =
      m.payload.take (slotPayloadSize * (i + 1)) := by
  rw [chunk, slice, List.drop_take, Nat.add_sub_cancel_left, Nat.mul_succ,
    List.take_add]

theorem chunk_zero : m.chunk 0 = m.payload.take (slotPayloadSize * 1) := by
  have h := @take_append_chunk m 0
  rwa [Nat.mul_zero, List.take_zero, List.nil_append] at h

theorem length_chunk_zero_le : (m.chunk 0).length ≤ m.payload.length := by
  rw [chunk_zero]
  exact List.length_take_le' _ _

theorem slot_eq :
    m.slot i = I2cHost.encodeSlot m.kind (m.slotFlags i) m.transferId
      (slotPayloadSize * i) m.payload.length (m.chunk i) := by
  rw [← encodeSlot_eq_host _ _ _ _ _ length_chunk_le, length_chunk]
  rfl

/-- Slots before the last are full, and the last ends the payload. -/
theorem stop_lt_iff (hi : i < m.slotCount) :
    slotPayloadSize * i + slotPayloadSize < m.payload.length ↔
      i + 1 < m.slotCount := by
  simp only [slotCount, slotPayloadSize, slotSize, slotHeaderSize] at hi ⊢
  omega

theorem offset_le (hi : i < m.slotCount) :
    slotPayloadSize * i ≤ m.payload.length := by
  simp only [slotCount, slotPayloadSize, slotSize, slotHeaderSize] at hi ⊢
  omega

theorem length_take (hi : i < m.slotCount) :
    (m.payload.take (slotPayloadSize * i)).length = slotPayloadSize * i := by
  rw [List.length_take]
  exact Nat.min_eq_left (offset_le hi)

theorem take_of_last (hi : i + 1 = m.slotCount) :
    m.payload.take (slotPayloadSize * (i + 1)) = m.payload := by
  apply List.take_of_length_le
  simp only [slotCount, slotPayloadSize, slotSize, slotHeaderSize] at hi ⊢
  omega

theorem slot_carries
    (hlen : m.payload.length < 4294967296) (hi : i < m.slotCount) :
    Carries (m.slot i) m.kind (m.slotFlags i) m.transferId
      (slotPayloadSize * i) m.payload.length (m.chunk i) := by
  rw [slot_eq]
  exact carries_encodeSlot length_chunk_le (lt_of_le_of_lt (offset_le hi) hlen)
    hlen

theorem slotFlags_start : m.slotFlags i &&& flagStart ≠ 0 ↔ i = 0 := by
  unfold slotFlags
  by_cases hzero : i = 0
  · rw [if_pos hzero]
    apply iff_of_true _ hzero
    split <;> decide
  · rw [if_neg hzero]
    apply iff_of_false _ hzero
    split <;> decide

theorem slotFlags_end : m.slotFlags i &&& flagEnd ≠ 0 ↔ i + 1 = m.slotCount := by
  unfold slotFlags
  by_cases hlast : i + 1 = m.slotCount
  · rw [if_pos hlast]
    apply iff_of_true _ hlast
    split <;> decide
  · rw [if_neg hlast]
    apply iff_of_false _ hlast
    split <;> decide

end Message

/-! ## What the host writes -/

section Encode

variable (m : Message)

theorem encodeSlotsFrom_eq
    {rounds i : ℕ} (hi : i < m.slotCount) (hrounds : m.slotCount ≤ i + rounds) :
    I2cHost.encodeSlotsFrom m.kind m.transferId m.payload rounds
        (slotPayloadSize * i) = m.slots.drop i := by
  induction rounds generalizing i with
  | zero => omega
  | succ rounds ih =>
      have hmore := m.stop_lt_iff hi
      have hzero : slotPayloadSize * i = 0 ↔ i = 0 := by
        simp [slotPayloadSize, slotSize, slotHeaderSize]
      have hlast : m.payload.length ≤
          min (slotPayloadSize * i + slotPayloadSize) m.payload.length ↔
            i + 1 = m.slotCount := by
        omega
      have hflags : (if m.payload.length ≤
            min (slotPayloadSize * i + slotPayloadSize) m.payload.length then
          (if slotPayloadSize * i = 0 then flagStart else 0) ||| flagEnd
          else (if slotPayloadSize * i = 0 then flagStart else 0)) =
          m.slotFlags i := by
        simp only [hlast, hzero, Message.slotFlags]
        split <;> simp
      have hchunk : slice m.payload (slotPayloadSize * i)
          (min (slotPayloadSize * i + slotPayloadSize) m.payload.length) =
            m.chunk i := by
        rw [Message.chunk, slice, slice, ← List.take_eq_take_min]
      have hround : I2cHost.encodeSlotsFrom m.kind m.transferId m.payload
          (rounds + 1) (slotPayloadSize * i) =
          if m.payload.length ≤
              min (slotPayloadSize * i + slotPayloadSize) m.payload.length then
            [m.slot i]
          else m.slot i :: I2cHost.encodeSlotsFrom m.kind m.transferId m.payload
            rounds
            (min (slotPayloadSize * i + slotPayloadSize) m.payload.length) := by
        rw [m.slot_eq, ← hflags, ← hchunk]
        rfl
      rw [hround, m.drop_slots hi]
      split
      next hdone =>
        rw [hlast.mp hdone, ← m.length_slots, List.drop_length]
      next hopen =>
        have hnext : min (slotPayloadSize * i + slotPayloadSize)
            m.payload.length = slotPayloadSize * (i + 1) := by
          rw [Nat.mul_succ]
          omega
        rw [hnext, ih (by omega) (by omega)]

theorem encodeSlots_eq :
    I2cHost.encodeSlots m.kind m.transferId m.payload = m.slots := by
  apply encodeSlotsFrom_eq m (i := 0)
  · exact m.slotCount_pos
  · simp only [Message.slotCount, slotPayloadSize, slotSize, slotHeaderSize]
    omega

def dataRequest (transferId : UInt16) (payload : List UInt8) : Message :=
  ⟨kindData, transferId, framed (reqDataMagic, respDataMagic) payload⟩

theorem sendData_slots
    (id : UInt16) {payload : List UInt8}
    (hpayload : payload.length ≤ I2cHost.payloadMax) :
    (I2cHost.sendData id payload).2 = (dataRequest id payload).slots := by
  rw [← encodeSlots_eq]
  unfold I2cHost.sendData I2cHost.writeRequest
  rw [Nat.min_eq_left hpayload, List.take_length]
  rfl

end Encode

end I2c
end PicoFi
