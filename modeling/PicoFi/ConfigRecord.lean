import PicoFi.I2cSlots
import PicoFi.Checksums

/-!
# The stored configuration

A configuration is kept in flash as a record of 64 bytes: a magic word, a
version, the fields at fixed positions and a checksum over the first sixty.
Decoding takes an encoded record back to its configuration, and no single
byte of a valid record can change without the record becoming invalid.
-/

namespace PicoFi

open Buffer
open I2c (le32 u32le u32le_ofNat length_le32)

/-! ## The codec -/

def configMagic : List UInt8 := ascii "PCFG"
def configVersion : UInt8 := 2

abbrev recordSize : ℕ := 64

abbrev Record := FixedBytes recordSize

def hashByte (hash : UInt32) (byte : UInt8) : UInt32 :=
  (hash ^^^ byte.toUInt32) * 0x01000193

def checksum32 (bytes : List UInt8) : UInt32 :=
  bytes.foldl hashByte 0x811c9dc5

def encodeAddressMode : AddressMode → UInt8
  | .dhcp => 0
  | .auto => 2
  | .static _ => 1

def encodeBridgeMode : BridgeMode → UInt8
  | .tcpClient _ _ => 0
  | .tcpServer _ => 1

def encodeUpstreamMode : UpstreamMode → UInt8
  | .uart => 0
  | .i2c => 1
  | .usb => 2
  | .test => 3
  | .spi => 4
  | .spiEcho => 5
  | .spiStatic => 6
  | .spiLineHigh => 7

def encodeUartPort : UartPort → UInt8
  | .uart0 => 0
  | .uart1 => 1

@[simp] theorem Mac.length_toList (mac : Mac) : mac.toList.length = 6 := rfl

@[simp] theorem Ipv4.length_toList (ip : Ipv4) : ip.toList.length = 4 := rfl

def writeAddressMode (buf : Record) : AddressMode → Record
  | .dhcp | .auto => buf
  | .static ipv4 =>
      let buf := buf.write 12 ipv4.address.toList (Nat.le_of_ble_eq_true rfl)
      let buf := buf.write 16 [ipv4.prefixLen] (Nat.le_of_ble_eq_true rfl)
      let buf := buf.write 17 ipv4.gateway.toList (Nat.le_of_ble_eq_true rfl)
      buf.write 21 ipv4.dns.toList (Nat.le_of_ble_eq_true rfl)

def writeBridgeMode (buf : Record) : BridgeMode → Record
  | .tcpClient host port =>
      (buf.write 26 host.toList (Nat.le_of_ble_eq_true rfl)).write 30 (le16 port.toNat)
        (Nat.le_of_ble_eq_true rfl)
  | .tcpServer port => buf.write 30 (le16 port.toNat) (Nat.le_of_ble_eq_true rfl)

def encodeHeader (config : BridgeConfig) : Record :=
  let buf : Record := ⟨List.replicate recordSize 0xff, List.length_replicate⟩
  let buf := buf.write 0 configMagic (by decide)
  let buf := buf.write 4 [configVersion] (Nat.le_of_ble_eq_true rfl)
  buf.write 5 config.macAddress.toList (Nat.le_of_ble_eq_true rfl)

def encodeAddress (config : BridgeConfig) : Record :=
  let buf := (encodeHeader config).write 11 [encodeAddressMode config.addressMode]
    (Nat.le_of_ble_eq_true rfl)
  writeAddressMode buf config.addressMode

def encodeBridge (config : BridgeConfig) : Record :=
  let buf := (encodeAddress config).write 25 [encodeBridgeMode config.bridgeMode]
    (Nat.le_of_ble_eq_true rfl)
  writeBridgeMode buf config.bridgeMode

/-- The buffer of a record before its checksum is written. -/
def encodeFields (config : BridgeConfig) : Record :=
  let buf := (encodeBridge config).write 32 [encodeUpstreamMode config.upstreamMode]
    (Nat.le_of_ble_eq_true rfl)
  let buf := buf.write 33 [encodeUartPort config.uartPort] (Nat.le_of_ble_eq_true rfl)
  buf.write 34 [if config.discovery then 0xa5 else 0] (Nat.le_of_ble_eq_true rfl)

def encodeRecord (config : BridgeConfig) : Record :=
  (encodeFields config).write 60
    (le32 (checksum32 (slice (encodeFields config).toList 0 60)).toNat)
    (Nat.le_of_ble_eq_true rfl)

/-- `try_into` of a slice of four bytes -/
def Ipv4.ofSlice : List UInt8 → Option Ipv4
  | [o0, o1, o2, o3] => some ⟨o0, o1, o2, o3⟩
  | _ => none

def Mac.ofSlice : List UInt8 → Option Mac
  | [b0, b1, b2, b3, b4, b5] => some ⟨b0, b1, b2, b3, b4, b5⟩
  | _ => none

/-- `u16::from_le_bytes` -/
def portAt (buf : Record) (i : ℕ) : UInt16 :=
  UInt16.ofNat (u16le (buf.byte i) (buf.byte (i + 1)))

def decodeAddressMode (buf : Record) : Option AddressMode :=
  match buf.byte 11 with
  | 0 => some .dhcp
  | 2 => some .auto
  | 1 => do
      let address ← Ipv4.ofSlice (slice buf.toList 12 16)
      let gateway ← Ipv4.ofSlice (slice buf.toList 17 21)
      let dns ← Ipv4.ofSlice (slice buf.toList 21 25)
      return .static
        { address := address
          prefixLen := buf.byte 16
          gateway := gateway
          dns := dns }
  | _ => none

def decodeBridgeMode (buf : Record) : Option BridgeMode :=
  match buf.byte 25 with
  | 0 => do
      let host ← Ipv4.ofSlice (slice buf.toList 26 30)
      return .tcpClient host (portAt buf 30)
  | 1 => some (.tcpServer (portAt buf 30))
  | _ => none

def decodeUpstreamMode : UInt8 → Option UpstreamMode
  | 0 => some .uart
  | 1 => some .i2c
  | 2 => some .usb
  | 3 => some .test
  | 4 => some .spi
  | 5 => some .spiEcho
  | 6 => some .spiStatic
  | 7 => some .spiLineHigh
  | _ => none

def decodeUartPort : UInt8 → Option UartPort
  | 0 => some .uart0
  | 1 => some .uart1
  | _ => none

/-- The header and the checksum of a record. -/
def Record.Sealed (buf : Record) : Prop :=
  slice buf.toList 0 4 = configMagic ∧ buf.byte 4 = configVersion ∧
    (checksum32 (slice buf.toList 0 60)).toNat =
      u32le (buf.byte 60) (buf.byte 61) (buf.byte 62) (buf.byte 63)

instance (buf : Record) : Decidable buf.Sealed :=
  inferInstanceAs (Decidable (_ ∧ _))

def decodeRecord (buf : Record) : Option BridgeConfig :=
  if buf.Sealed then do
    let addressMode ← decodeAddressMode buf
    let bridgeMode ← decodeBridgeMode buf
    let upstreamMode ← decodeUpstreamMode (buf.byte 32)
    let uartPort ← decodeUartPort (buf.byte 33)
    let macAddress ← Mac.ofSlice (slice buf.toList 5 11)
    return { discovery := buf.byte 34 == 0xa5
             macAddress := macAddress
             addressMode := addressMode
             bridgeMode := bridgeMode
             upstreamMode := upstreamMode
             uartPort := uartPort }
  else none

/-! ## Encoded records decode -/

@[simp] theorem Mac.ofSlice_toList (mac : Mac) : Mac.ofSlice mac.toList = some mac := rfl

@[simp] theorem Ipv4.ofSlice_toList (ip : Ipv4) : Ipv4.ofSlice ip.toList = some ip := rfl

theorem decodeUpstreamMode_encode (mode : UpstreamMode) :
    decodeUpstreamMode (encodeUpstreamMode mode) = some mode := by
  cases mode <;> rfl

theorem decodeUartPort_encode (port : UartPort) :
    decodeUartPort (encodeUartPort port) = some port := by
  cases port <;> rfl

theorem port_le16 (port : UInt16) :
    UInt16.ofNat (u16le (UInt8.ofNat port.toNat) (UInt8.ofNat (port.toNat / 256))) =
      port := by
  rw [u16le_ofNat port.toNat_lt, UInt16.ofNat_toNat]

section Writes

open FixedBytes

variable {buf : Record} {lo hi i : ℕ}

theorem byte_writeAddressMode {mode : AddressMode} (hi : i < 12 ∨ 25 ≤ i) :
    (writeAddressMode buf mode).byte i = buf.byte i := by
  cases mode with
  | auto => rfl
  | dhcp => rfl
  | static ipv4 =>
      unfold writeAddressMode
      iterate 4 rw [byte_write_of_disjoint _ (by simp; omega)]

theorem byte_writeBridgeMode {mode : BridgeMode} (hi : i < 26 ∨ 32 ≤ i) :
    (writeBridgeMode buf mode).byte i = buf.byte i := by
  cases mode with
  | tcpClient host port =>
      unfold writeBridgeMode
      iterate 2 rw [byte_write_of_disjoint _ (by simp; omega)]
  | tcpServer port =>
      unfold writeBridgeMode
      rw [byte_write_of_disjoint _ (by simp; omega)]

theorem decodeAddressMode_write {mode : AddressMode}
    (hkind : buf.byte 11 = encodeAddressMode mode) :
    decodeAddressMode (writeAddressMode buf mode) = some mode := by
  unfold decodeAddressMode
  rw [byte_writeAddressMode (by decide), hkind]
  cases mode with
  | auto => rfl
  | dhcp => rfl
  | static ipv4 =>
      have haddress : slice (writeAddressMode buf (.static ipv4)).toList 12 16 =
          ipv4.address.toList := by
        unfold writeAddressMode
        iterate 3 rw [slice_write_of_disjoint _ (by simp)]
        exact slice_write_self _ rfl
      have hprefix : (writeAddressMode buf (.static ipv4)).byte 16 =
          ipv4.prefixLen := by
        unfold writeAddressMode
        iterate 2 rw [byte_write_of_disjoint _ (by simp)]
        exact byte_write_inside _ (by simp)
      have hgateway : slice (writeAddressMode buf (.static ipv4)).toList 17 21 =
          ipv4.gateway.toList := by
        unfold writeAddressMode
        rw [slice_write_of_disjoint _ (by simp)]
        exact slice_write_self _ rfl
      have hdns : slice (writeAddressMode buf (.static ipv4)).toList 21 25 =
          ipv4.dns.toList := by
        unfold writeAddressMode
        exact slice_write_self _ rfl
      simp only [encodeAddressMode, haddress, hprefix, hgateway, hdns,
        Ipv4.ofSlice_toList]
      rfl

theorem portAt_write (port : UInt16) (hfit : 30 + (le16 port.toNat).length ≤ recordSize) :
    portAt (buf.write 30 (le16 port.toNat) hfit) 30 = port := by
  unfold portAt
  rw [byte_write_inside _ (by simp), byte_write_inside _ (by simp)]
  simp only [le16]
  exact port_le16 port

theorem decodeBridgeMode_write {mode : BridgeMode}
    (hkind : buf.byte 25 = encodeBridgeMode mode) :
    decodeBridgeMode (writeBridgeMode buf mode) = some mode := by
  unfold decodeBridgeMode
  rw [byte_writeBridgeMode (by decide), hkind]
  cases mode with
  | tcpClient host port =>
      have hhost : slice (writeBridgeMode buf (.tcpClient host port)).toList 26 30 =
          host.toList := by
        unfold writeBridgeMode
        rw [slice_write_of_disjoint _ (by simp)]
        exact slice_write_self _ rfl
      have hport : portAt (writeBridgeMode buf (.tcpClient host port)) 30 = port :=
        portAt_write port (Nat.le_of_ble_eq_true rfl)
      simp only [encodeBridgeMode, hhost, hport, Ipv4.ofSlice_toList]
      rfl
  | tcpServer port =>
      have hport : portAt (writeBridgeMode buf (.tcpServer port)) 30 = port :=
        portAt_write port (Nat.le_of_ble_eq_true rfl)
      simp only [encodeBridgeMode, hport]

/-- The address mode is read between the bytes 11 and 25. -/
theorem decodeAddressMode_congr {other : Record}
    (hbyte : ∀ i, 11 ≤ i → i < 25 → other.byte i = buf.byte i) :
    decodeAddressMode other = decodeAddressMode buf := by
  have hslice : ∀ lo hi, 11 ≤ lo → hi ≤ 25 →
      slice other.toList lo hi = slice buf.toList lo hi := fun lo hi hlo hhi =>
    slice_congr fun i hi hi' => hbyte i (hlo.trans hi) (hi'.trans_le hhi)
  unfold decodeAddressMode
  rw [hbyte 11 (by decide) (by decide), hbyte 16 (by decide) (by decide),
    hslice 12 16 (by decide) (by decide), hslice 17 21 (by decide) (by decide),
    hslice 21 25 (by decide) (by decide)]

theorem decodeBridgeMode_congr {other : Record}
    (hbyte : ∀ i, 25 ≤ i → i < 32 → other.byte i = buf.byte i) :
    decodeBridgeMode other = decodeBridgeMode buf := by
  have hslice : slice other.toList 26 30 = slice buf.toList 26 30 :=
    slice_congr fun i hi hi' => hbyte i (by omega) (by omega)
  unfold decodeBridgeMode portAt
  rw [hbyte 25 (by decide) (by decide), hbyte 30 (by decide) (by decide),
    hbyte (30 + 1) (by decide) (by decide), hslice]

end Writes

section Encoded

open FixedBytes

variable (config : BridgeConfig)

/-! Each stage leaves the bytes before it as they were. -/

theorem byte_encodeRecord {i : ℕ} (hi : i < 60) :
    (encodeRecord config).byte i = (encodeFields config).byte i := by
  rw [encodeRecord, byte_write_of_disjoint _ (by omega)]

theorem byte_encodeRecord_bridge {i : ℕ} (hi : i < 32) :
    (encodeRecord config).byte i = (encodeBridge config).byte i := by
  rw [byte_encodeRecord config (by omega)]
  dsimp only [encodeFields]
  iterate 3 rw [byte_write_of_disjoint _ (by omega)]

theorem byte_encodeBridge {i : ℕ} (hi : i < 25) :
    (encodeBridge config).byte i = (encodeAddress config).byte i := by
  dsimp only [encodeBridge]
  rw [byte_writeBridgeMode (by omega), byte_write_of_disjoint _ (by omega)]

theorem byte_encodeRecord_header {i : ℕ} (hi : i < 11) :
    (encodeRecord config).byte i = (encodeHeader config).byte i := by
  rw [byte_encodeRecord_bridge config (by omega), byte_encodeBridge config (by omega)]
  dsimp only [encodeAddress]
  rw [byte_writeAddressMode (by omega), byte_write_of_disjoint _ (by omega)]

theorem slice_encodeRecord_header {lo hi : ℕ} (hhi : hi ≤ 11) :
    slice (encodeRecord config).toList lo hi =
      slice (encodeHeader config).toList lo hi :=
  slice_congr fun _ _ hi => byte_encodeRecord_header config (hi.trans_le hhi)

theorem magic_encodeRecord :
    slice (encodeRecord config).toList 0 4 = configMagic := by
  rw [slice_encodeRecord_header config (by decide)]
  dsimp only [encodeHeader]
  iterate 2 rw [slice_write_of_disjoint _ (by omega)]
  exact slice_write_self _ rfl

theorem version_encodeRecord : (encodeRecord config).byte 4 = configVersion := by
  rw [byte_encodeRecord_header config (by decide)]
  dsimp only [encodeHeader]
  rw [byte_write_of_disjoint _ (by omega)]
  exact byte_write_inside _ (by simp)

theorem mac_encodeRecord :
    slice (encodeRecord config).toList 5 11 = config.macAddress.toList := by
  rw [slice_encodeRecord_header config (by decide)]
  dsimp only [encodeHeader]
  exact slice_write_self _ rfl

theorem addressMode_encodeRecord :
    decodeAddressMode (encodeRecord config) = some config.addressMode := by
  have hstage : decodeAddressMode (encodeRecord config) =
      decodeAddressMode (encodeAddress config) := by
    apply decodeAddressMode_congr
    intro i _ hi
    rw [byte_encodeRecord_bridge config (by omega), byte_encodeBridge config hi]
  rw [hstage]
  exact decodeAddressMode_write (byte_write_inside _ (by simp))

theorem bridgeMode_encodeRecord :
    decodeBridgeMode (encodeRecord config) = some config.bridgeMode := by
  have hstage : decodeBridgeMode (encodeRecord config) =
      decodeBridgeMode (encodeBridge config) :=
    decodeBridgeMode_congr fun _ _ hi => byte_encodeRecord_bridge config hi
  rw [hstage]
  exact decodeBridgeMode_write (byte_write_inside _ (by simp))

theorem upstreamMode_encodeRecord :
    (encodeRecord config).byte 32 = encodeUpstreamMode config.upstreamMode := by
  rw [byte_encodeRecord config (by decide)]
  dsimp only [encodeFields]
  iterate 2 rw [byte_write_of_disjoint _ (by omega)]
  exact byte_write_inside _ (by simp)

theorem uartPort_encodeRecord :
    (encodeRecord config).byte 33 = encodeUartPort config.uartPort := by
  rw [byte_encodeRecord config (by decide)]
  dsimp only [encodeFields]
  rw [byte_write_of_disjoint _ (by omega)]
  exact byte_write_inside _ (by simp)

theorem discovery_encodeRecord :
    ((encodeRecord config).byte 34 == 0xa5) = config.discovery := by
  have hbyte : (encodeRecord config).byte 34 = if config.discovery then 0xa5 else 0 := by
    rw [byte_encodeRecord config (by decide)]
    dsimp only [encodeFields]
    exact byte_write_inside _ (by simp)
  rw [hbyte]
  cases config.discovery <;> rfl

theorem checksum_encodeRecord :
    (checksum32 (slice (encodeRecord config).toList 0 60)).toNat =
      u32le ((encodeRecord config).byte 60) ((encodeRecord config).byte 61)
        ((encodeRecord config).byte 62) ((encodeRecord config).byte 63) := by
  unfold encodeRecord
  rw [slice_write_of_disjoint _ (by omega)]
  iterate 4 rw [byte_write_inside _ (by simp)]
  exact (u32le_ofNat (UInt32.toNat_lt _)).symm

theorem sealed_encodeRecord : (encodeRecord config).Sealed :=
  ⟨magic_encodeRecord config, version_encodeRecord config,
    checksum_encodeRecord config⟩

theorem decodeRecord_encodeRecord : decodeRecord (encodeRecord config) = some config := by
  unfold decodeRecord
  rw [if_pos (sealed_encodeRecord config), addressMode_encodeRecord,
    bridgeMode_encodeRecord, upstreamMode_encodeRecord, decodeUpstreamMode_encode,
    uartPort_encodeRecord, decodeUartPort_encode, mac_encodeRecord,
    Mac.ofSlice_toList, discovery_encodeRecord]
  rfl

end Encoded

/-! ## One changed byte -/

/-- The multiplier is odd: its inverse modulo 2^32 undoes it. -/
theorem hashByte_mul (hash : UInt32) (byte : UInt8) :
    hashByte hash byte * 0x359c449b = hash ^^^ byte.toUInt32 := by
  have hinverse : (0x01000193 : UInt32) * 0x359c449b = 1 := by decide
  rw [hashByte, UInt32.mul_assoc, hinverse, UInt32.mul_one]

theorem hashByte_injective_state (byte : UInt8) :
    Function.Injective fun hash => hashByte hash byte := by
  intro hash other h
  have hxor : hash ^^^ byte.toUInt32 = other ^^^ byte.toUInt32 := by
    rw [← hashByte_mul, ← hashByte_mul]
    exact congrArg (· * 0x359c449b) h
  exact (UInt32.xor_left_inj byte.toUInt32).mp hxor

theorem hashByte_injective_byte (hash : UInt32) : Function.Injective (hashByte hash) := by
  intro byte other h
  have hxor : hash ^^^ byte.toUInt32 = hash ^^^ other.toUInt32 := by
    rw [← hashByte_mul, ← hashByte_mul]
    exact congrArg (· * 0x359c449b) h
  have hword : byte.toUInt32 = other.toUInt32 := (UInt32.xor_right_inj hash).mp hxor
  have hnat : byte.toUInt32.toNat = other.toUInt32.toNat := by rw [hword]
  simp only [UInt8.toNat_toUInt32] at hnat
  exact UInt8.toNat_inj.mp hnat

theorem checksum32_set_ne {bytes : List UInt8} {i : ℕ} {b : UInt8}
    (hi : i < bytes.length) (hb : b ≠ bytes[i]) :
    checksum32 (bytes.set i b) ≠ checksum32 bytes :=
  Checksums.foldl_set_ne hashByte_injective_state hashByte_injective_byte hi hb _

theorem u32le_inj {a b c d a' b' c' d' : UInt8}
    (h : u32le a b c d = u32le a' b' c' d') : a = a' ∧ b = b' ∧ c = c' ∧ d = d' := by
  simp only [u32le] at h
  simp only [← UInt8.toNat_inj]
  have := a.toNat_lt
  have := b.toNat_lt
  have := c.toNat_lt
  have := a'.toNat_lt
  have := b'.toNat_lt
  have := c'.toNat_lt
  omega

/-- The record with one byte replaced. -/
def Record.set (buf : Record) (i : ℕ) (b : UInt8) : Record :=
  ⟨buf.toList.set i b, by rw [List.length_set, buf.length_toList]⟩

theorem Record.byte_set_self {buf : Record} {i : ℕ} (hi : i < recordSize) (b : UInt8) :
    (buf.set i b).byte i = b := by
  have hlength : i < buf.toList.length := by rwa [buf.length_toList]
  simp [Record.set, FixedBytes.byte, hlength]

theorem Record.byte_set_of_ne {buf : Record} {i j : ℕ} (hij : i ≠ j) (b : UInt8) :
    (buf.set i b).byte j = buf.byte j := by
  simp [Record.set, FixedBytes.byte, hij]

theorem sealed_of_decodeRecord {buf : Record} (h : (decodeRecord buf).isSome) :
    buf.Sealed := by
  by_contra hbad
  rw [decodeRecord, if_neg hbad] at h
  contradiction

theorem decodeRecord_set_eq_none {buf : Record} (hbuf : (decodeRecord buf).isSome)
    {i : ℕ} (hi : i < recordSize) {b : UInt8} (hb : b ≠ buf.byte i) :
    decodeRecord (buf.set i b) = none := by
  rw [decodeRecord, if_neg]
  rintro ⟨-, -, hset⟩
  obtain ⟨-, -, hsum⟩ := sealed_of_decodeRecord hbuf
  rw [slice_zero] at hset hsum
  by_cases hlow : i < 60
  · have hlength : i < (buf.toList.take 60).length := by
      simpa [buf.length_toList] using ⟨hlow, hi⟩
    have hbyte : buf.byte i = (buf.toList.take 60)[i] := by
      simp [FixedBytes.byte, buf.length_toList, hi]
    have htake : (buf.set i b).toList.take 60 = (buf.toList.take 60).set i b :=
      List.take_set
    iterate 4 rw [Record.byte_set_of_ne (by omega)] at hset
    rw [htake, ← hsum, UInt32.toNat_inj] at hset
    exact checksum32_set_ne hlength (hbyte ▸ hb) hset
  · have htake : (buf.set i b).toList.take 60 = buf.toList.take 60 :=
      List.take_set_of_le (by omega)
    rw [htake, hsum] at hset
    obtain ⟨h60, h61, h62, h63⟩ := u32le_inj hset
    have hself : (buf.set i b).byte i = b := Record.byte_set_self hi b
    have hhigh : i < 64 := hi
    obtain rfl | rfl | rfl | rfl : i = 60 ∨ i = 61 ∨ i = 62 ∨ i = 63 := by omega
    · exact hb (hself.symm.trans h60.symm)
    · exact hb (hself.symm.trans h61.symm)
    · exact hb (hself.symm.trans h62.symm)
    · exact hb (hself.symm.trans h63.symm)

theorem spiServer_record_set_discovery :
    decodeRecord ((encodeRecord .spiServer).set 34 0) = none :=
  decodeRecord_set_eq_none (by rw [decodeRecord_encodeRecord]; rfl) (by decide)
    (by decide +kernel)

end PicoFi
