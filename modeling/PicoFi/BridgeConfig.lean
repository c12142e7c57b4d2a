import PicoFi.BoundedText
import PicoFi.ByteBuffer

/-!
# Bridge configuration

The runtime configuration and its one-line rendering into a 160-byte string.
Text is kept as its bytes; a push that does not fit leaves the string as it
was.
-/

namespace PicoFi

/-! ## Addresses -/

structure Mac where
  b0 : UInt8
  b1 : UInt8
  b2 : UInt8
  b3 : UInt8
  b4 : UInt8
  b5 : UInt8
  deriving DecidableEq

def Mac.toList (mac : Mac) : List UInt8 :=
  [mac.b0, mac.b1, mac.b2, mac.b3, mac.b4, mac.b5]

theorem Mac.toList_inj {mac other : Mac} (h : mac.toList = other.toList) :
    mac = other := by
  cases mac
  cases other
  simpa [Mac.toList] using h

structure Ipv4 where
  o0 : UInt8
  o1 : UInt8
  o2 : UInt8
  o3 : UInt8
  deriving DecidableEq

namespace Ipv4

def toList (ip : Ipv4) : List UInt8 := [ip.o0, ip.o1, ip.o2, ip.o3]

def zero : Ipv4 := ⟨0, 0, 0, 0⟩

/-- `u32::from_be_bytes` -/
def toBits (ip : Ipv4) : UInt32 :=
  UInt32.ofNat (ip.o0.toNat * 2 ^ 24 + ip.o1.toNat * 2 ^ 16 +
    ip.o2.toNat * 2 ^ 8 + ip.o3.toNat)

/-- `u32::to_be_bytes` -/
def ofBits (bits : UInt32) : Ipv4 where
  o0 := UInt8.ofNat (bits.toNat / 2 ^ 24)
  o1 := UInt8.ofNat (bits.toNat / 2 ^ 16)
  o2 := UInt8.ofNat (bits.toNat / 2 ^ 8)
  o3 := UInt8.ofNat bits.toNat

@[simp] theorem ofBits_toBits (ip : Ipv4) : ofBits ip.toBits = ip := by
  obtain ⟨o0, o1, o2, o3⟩ := ip
  have h0 := o0.toNat_lt
  have h1 := o1.toNat_lt
  have h2 := o2.toNat_lt
  have h3 := o3.toNat_lt
  have hbits : (toBits ⟨o0, o1, o2, o3⟩).toNat =
      o0.toNat * 2 ^ 24 + o1.toNat * 2 ^ 16 + o2.toNat * 2 ^ 8 + o3.toNat := by
    rw [toBits, UInt32.toNat_ofNat']
    dsimp only
    omega
  simp only [ofBits, hbits, mk.injEq, ← UInt8.toNat_inj, UInt8.toNat_ofNat']
  omega

end Ipv4

/-- A string literal as its bytes; the firmware's texts are ASCII. -/
def ascii (s : String) : List UInt8 := s.toList.map fun c => UInt8.ofNat c.toNat

/-! ## The configuration -/

structure Ipv4Config where
  address : Ipv4
  prefixLen : UInt8
  gateway : Ipv4
  dns : Ipv4
  deriving DecidableEq

inductive AddressMode
  | auto
  | dhcp
  | static (ipv4 : Ipv4Config)
  deriving DecidableEq

inductive BridgeMode
  | tcpClient (host : Ipv4) (port : UInt16)
  | tcpServer (port : UInt16)
  deriving DecidableEq

inductive UpstreamMode
  | uart
  | i2c
  | usb
  | spi
  | spiEcho
  | spiStatic
  | spiLineHigh
  | test
  deriving DecidableEq

inductive UartPort
  | uart0
  | uart1
  deriving DecidableEq

structure BridgeConfig where
  discovery : Bool
  macAddress : Mac
  addressMode : AddressMode
  bridgeMode : BridgeMode
  upstreamMode : UpstreamMode
  uartPort : UartPort
  deriving DecidableEq

/-- A server on an automatic address with the SPI transport upstream. -/
def BridgeConfig.spiServer : BridgeConfig where
  discovery := true
  macAddress := ⟨2, 1, 2, 3, 4, 5⟩
  addressMode := .auto
  bridgeMode := .tcpServer 5000
  upstreamMode := .spi
  uartPort := .uart0

def BridgeConfig.i2cServer : BridgeConfig :=
  { BridgeConfig.spiServer with upstreamMode := .i2c }

/-! ## Rendering -/

/-- `heapless::String::push_str` -/
def pushStr (cap : ℕ) (out text : List UInt8) : List UInt8 :=
  if out.length + text.length ≤ cap then out ++ text else out

theorem pushStr_eq_append : pushStr = BoundedText.append := rfl

/-- `heapless::String::push`, one ASCII character after the other. -/
def pushChars (cap : ℕ) (out chars : List UInt8) : List UInt8 :=
  chars.foldl (fun out c => pushStr cap out [c]) out

/-- The digits of the decimal loops, most significant first. -/
def decimalDigits (n : ℕ) : List UInt8 :=
  if n < 10 then [UInt8.ofNat (48 + n)]
  else decimalDigits (n / 10) ++ [UInt8.ofNat (48 + n % 10)]
termination_by n
decreasing_by omega

abbrev configTextMax : ℕ := 160

def pushU8 (out : List UInt8) (value : UInt8) : List UInt8 :=
  pushChars configTextMax out (decimalDigits value.toNat)

def pushU16 (out : List UInt8) (value : UInt16) : List UInt8 :=
  pushChars configTextMax out (decimalDigits value.toNat)

def pushIpv4 (out : List UInt8) (ip : Ipv4) : List UInt8 :=
  let dot := ascii "."
  let out := pushChars configTextMax (pushU8 out ip.o0) dot
  let out := pushChars configTextMax (pushU8 out ip.o1) dot
  let out := pushChars configTextMax (pushU8 out ip.o2) dot
  pushU8 out ip.o3

def hexDigit (n : ℕ) : UInt8 := (ascii "0123456789abcdef").getD n 0

def pushHexByte (out : List UInt8) (value : UInt8) : List UInt8 :=
  pushChars configTextMax out
    [hexDigit (value.toNat / 16), hexDigit (value.toNat % 16)]

def pushMac (out : List UInt8) (mac : Mac) : List UInt8 :=
  let colon := ascii ":"
  let out := pushChars configTextMax (pushHexByte out mac.b0) colon
  let out := pushChars configTextMax (pushHexByte out mac.b1) colon
  let out := pushChars configTextMax (pushHexByte out mac.b2) colon
  let out := pushChars configTextMax (pushHexByte out mac.b3) colon
  let out := pushChars configTextMax (pushHexByte out mac.b4) colon
  pushHexByte out mac.b5

def UpstreamMode.text : UpstreamMode → List UInt8
  | .uart => ascii " upstream=uart"
  | .i2c => ascii " upstream=i2c"
  | .usb => ascii " upstream=usb"
  | .spi => ascii " upstream=spi"
  | .spiEcho => ascii " upstream=spi_echo"
  | .spiStatic => ascii " upstream=spi_static"
  | .spiLineHigh => ascii " upstream=spi_line_high"
  | .test => ascii " upstream=test"

def UartPort.text : UartPort → List UInt8
  | .uart0 => ascii " uart=uart0"
  | .uart1 => ascii " uart=uart1"

def renderConfig (config : BridgeConfig) : List UInt8 :=
  let push := pushStr configTextMax
  let out := push [] (ascii "mac=")
  let out := pushMac out config.macAddress
  let out := pushChars configTextMax out (ascii " ")
  let out := if config.discovery then push out (ascii "discovery=on ") else out
  let out :=
    match config.addressMode with
    | .auto => push out (ascii "ip=auto ")
    | .dhcp => push out (ascii "ip=dhcp ")
    | .static ipv4 =>
        let out := push out (ascii "ip=static ")
        let out := pushIpv4 out ipv4.address
        let out := pushChars configTextMax out (ascii "/")
        let out := pushU8 out ipv4.prefixLen
        let out := push out (ascii " gw=")
        let out := pushIpv4 out ipv4.gateway
        let out := push out (ascii " dns=")
        let out := pushIpv4 out ipv4.dns
        pushChars configTextMax out (ascii " ")
  let out :=
    match config.bridgeMode with
    | .tcpClient host port =>
        let out := push out (ascii "mode=client dest=")
        let out := pushIpv4 out host
        let out := pushChars configTextMax out (ascii ":")
        pushU16 out port
    | .tcpServer port =>
        let out := push out (ascii "mode=server listen=")
        pushU16 out port
  let out := push out config.upstreamMode.text
  push out config.uartPort.text

end PicoFi
