import PicoFi.Base64
import PicoFi.SpiSession

/-!
# Armored packets

The routers on the hosts send their packets in base64 text behind a prefix.
The text has no slash and never the length whose low byte is one, so that the
SPI slave takes no packet for a local command, and the router on the other side
gets back the bytes of the packet.  How a packet is serialized is a parameter.
-/

namespace PicoFi
namespace PacketArmor

open Buffer LinkFrame Mailbox

/-! ## The alphabet -/

/-- The characters `urlsafe_b64encode` writes. -/
def urlSafeChar (v : ℕ) : UInt8 :=
  if v < 26 then UInt8.ofNat (65 + v)
  else if v < 52 then UInt8.ofNat (97 + (v - 26))
  else if v < 62 then UInt8.ofNat (48 + (v - 52))
  else if v = 62 then 45
  else 95

/-- The characters `urlsafe_b64decode` reads, which include those of the common
alphabet. -/
def urlSafeValue (c : UInt8) : Option ℕ :=
  if 65 ≤ c ∧ c ≤ 90 then some (c.toNat - 65)
  else if 97 ≤ c ∧ c ≤ 122 then some (c.toNat - 97 + 26)
  else if 48 ≤ c ∧ c ≤ 57 then some (c.toNat - 48 + 52)
  else if c = 45 ∨ c = 43 then some 62
  else if c = 95 ∨ c = 47 then some 63
  else none

def urlSafe : Base64.Alphabet where
  char := urlSafeChar
  pad := 61
  value := urlSafeValue
  value_char := by decide
  char_ne_pad := by decide

theorem urlSafeChar_ne_slash : ∀ v < 64, urlSafeChar v ≠ 47 := by decide

/-! ## Packets -/

section Packets

variable {P : Type} (serialize : P → List UInt8) (deserialize : List UInt8 → Option P)

def armorPrefix : List UInt8 := ascii "SP6:"

def armorPacket (packet : P) : List UInt8 :=
  armorPrefix ++ Base64.encode urlSafe (serialize packet)

def decodeArmoredPacket (payload : List UInt8) : Option P :=
  if armorPrefix <+: payload then
    (Base64.decode urlSafe (payload.drop armorPrefix.length)).bind deserialize
  else none

/-- `decode_packet` -/
def decodePacket (payload : List UInt8) : Option P :=
  match decodeArmoredPacket deserialize payload with
  | some packet => some packet
  | none => deserialize payload

end Packets

section Armor

variable {P : Type} {serialize : P → List UInt8} {deserialize : List UInt8 → Option P}

theorem decodeArmoredPacket_armorPacket (packet : P) :
    decodeArmoredPacket deserialize (armorPacket serialize packet) =
      deserialize (serialize packet) := by
  rw [decodeArmoredPacket, armorPacket, if_pos (List.prefix_append _ _), List.drop_left,
    Base64.decode_encode]
  rfl

theorem length_armorPacket (packet : P) :
    (armorPacket serialize packet).length = 4 + 4 * (((serialize packet).length + 2) / 3) := by
  rw [armorPacket, List.length_append, Base64.length_encode]
  rfl

theorem no_slash_in_armor {packet : P} {b : UInt8} (hmem : b ∈ armorPacket serialize packet) :
    b ≠ 47 := by
  rcases List.mem_append.mp hmem with hfront | htext
  · have hall : ∀ b ∈ armorPrefix, b ≠ 47 := by decide
    exact hall b hfront
  · rcases Base64.mem_encode htext with rfl | ⟨v, hv, rfl⟩
    · exact show (61 : UInt8) ≠ 47 by decide
    · exact urlSafeChar_ne_slash v hv

theorem armorPacket_hidesNoCommand (packet : P) :
    Spi.HidesNoCommand (armorPacket serialize packet) := by
  constructor
  · rw [length_armorPacket]
    omega
  · rintro i ⟨hslash, -⟩
    have hmem := List.mem_of_mem_take (List.mem_of_getElem? hslash)
    exact no_slash_in_armor hmem rfl

/-- Every packet that fits a frame crosses the SPI bridge as data, whatever the
slave was doing, and is read on the other side from the bytes it was made of. -/
theorem armored_packet_crosses (config : BridgeConfig) (runtime : CommandRuntime)
    (s : Spi.SpiTask) (written : ℕ) (packet : P)
    (hfits : (armorPacket serialize packet).length ≤ payloadMax) :
    (∃ item, Spi.CarriesPayload config runtime s
        ⟨Spi.dataFrame (armorPacket serialize packet),
          frameHeaderSize + (armorPacket serialize packet).length, written⟩
        (armorPacket serialize packet) item) ∧
      decodeArmoredPacket deserialize (armorPacket serialize packet) =
        deserialize (serialize packet) ∧
      decodePacket deserialize (armorPacket serialize packet) =
        (deserialize (serialize packet)).or
          (deserialize (armorPacket serialize packet)) := by
  have hpayload : armorPacket serialize packet ≠ [] := by
    have hlen := @length_armorPacket P serialize packet
    intro hnil
    rw [hnil, List.length_nil] at hlen
    omega
  have hfirst : (armorPacket serialize packet).head? ≠ some 47 := by
    intro hslash
    exact no_slash_in_armor (List.mem_of_head? hslash) rfl
  have hplain := (Spi.extract_dataFrame hfits).mpr (armorPacket_hidesNoCommand packet)
  have hdecoded := @decodeArmoredPacket_armorPacket P serialize deserialize packet
  refine ⟨⟨_, Spi.carriesPayload_of_forward hfits hpayload hfirst ?_⟩, hdecoded, ?_⟩
  · rw [Spi.verdict_dataFrame hfits hpayload, hplain]
  · rw [decodePacket, hdecoded]
    cases deserialize (serialize packet) <;> rfl

end Armor

/-- Three bytes that are their own packet. -/
theorem armored_packet_crosses_three :
    (∃ item, Spi.CarriesPayload BridgeConfig.spiServer CommandRuntime.idle Spi.SpiTask.start
        ⟨Spi.dataFrame (armorPacket id [1, 2, 3]),
          frameHeaderSize + (armorPacket id [1, 2, 3]).length, 4⟩
        (armorPacket id [1, 2, 3]) item) ∧
      decodeArmoredPacket some (armorPacket id [1, 2, 3]) = some [1, 2, 3] ∧
      decodePacket some (armorPacket id [1, 2, 3]) = some [1, 2, 3] :=
  armored_packet_crosses BridgeConfig.spiServer CommandRuntime.idle Spi.SpiTask.start 4
    [1, 2, 3] (by decide)

end PacketArmor
end PicoFi
