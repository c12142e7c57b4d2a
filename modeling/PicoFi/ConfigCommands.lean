import PicoFi.ConfigRecord

/-!
# Configuration commands

A shell line is split at ASCII white space into at most eight tokens, the
tokens are read as a command, and a command changes some fields of the
configuration.  Lines are byte lists.
-/

namespace PicoFi

open Buffer

/-! ## Tokens -/

def isAsciiWhitespace (b : UInt8) : Bool :=
  b == 32 || b == 9 || b == 10 || b == 12 || b == 13

def splitAsciiWhitespace (line : List UInt8) : List (List UInt8) :=
  (line.splitOnP isAsciiWhitespace).filter fun token => !token.isEmpty

/-- The white space of `str::trim` that is ASCII. -/
def isTrimmed (b : UInt8) : Bool := b == 32 || (9 ≤ b && b ≤ 13)

def trim (token : List UInt8) : List UInt8 :=
  ((token.dropWhile isTrimmed).reverse.dropWhile isTrimmed).reverse

abbrev maxTokens : ℕ := 8

/-! ## Numbers and addresses -/

/-- A parser reports an error text, or the firmware halts. -/
inductive ParseFailure
  | panicked
  | rejected (err : List UInt8)
  deriving DecidableEq

abbrev Parsed (α : Type) := Except ParseFailure α

def rejected {α : Type} (err : String) : Parsed α := .error (.rejected (ascii err))

/-- One digit of `from_str_radix(10)`; `none` at another character and at the
digit that leaves the type. -/
def parseDigit (max value : ℕ) (b : UInt8) : Option ℕ :=
  if 48 ≤ b ∧ b ≤ 57 then
    let next := value * 10 + (b.toNat - 48)
    if next ≤ max then some next else none
  else none

/-- `str::parse` of an unsigned type with the given maximum; a plus sign may
stand before the digits. -/
def parseUnsigned (max : ℕ) (text : List UInt8) : Option ℕ :=
  let digits := if text.head? = some 43 then text.tail else text
  if digits.isEmpty then none else digits.foldlM (parseDigit max) 0

def parsePort (value : List UInt8) : Parsed UInt16 :=
  match parseUnsigned 65535 value with
  | some port => .ok (UInt16.ofNat port)
  | none => rejected "invalid port"

/-- The loop over the chunks of an address, from the chunk `idx` on. -/
def parseOctets : List (List UInt8) → ℕ → FixedBytes 4 → Parsed (ℕ × FixedBytes 4)
  | [], idx, octets => .ok (idx, octets)
  | chunk :: chunks, idx, octets =>
      if 4 ≤ idx then rejected "invalid ipv4 address"
      else
        match parseUnsigned 255 chunk with
        | none => rejected "invalid ipv4 address"
        | some octet =>
            match octets.write? idx [UInt8.ofNat octet] with
            | none => .error .panicked
            | some octets => parseOctets chunks (idx + 1) octets

def parseIpv4 (value : List UInt8) : Parsed Ipv4 := do
  let (count, octets) ← parseOctets (value.splitOn 46) 0 (FixedBytes.padded [])
  if count ≠ 4 then rejected "invalid ipv4 address"
  else return ⟨octets.byte 0, octets.byte 1, octets.byte 2, octets.byte 3⟩

/-- `str::split_once` -/
def splitOnce (separator : UInt8) (text : List UInt8) :
    Option (List UInt8 × List UInt8) :=
  match text.dropWhile (· != separator) with
  | [] => none
  | _ :: rest => some (text.takeWhile (· != separator), rest)

def parseStatic (cidr gateway dns : List UInt8) : Parsed Ipv4Config :=
  match splitOnce 47 cidr with
  | none => rejected "expected cidr form a.b.c.d/prefix"
  | some (addr, cidrPrefix) =>
      match parseUnsigned 255 cidrPrefix with
      | none => rejected "invalid prefix"
      | some prefixLen =>
          if 32 < prefixLen then rejected "invalid prefix"
          else do
            let address ← parseIpv4 addr
            let gateway ← parseIpv4 gateway
            let dns ← parseIpv4 dns
            return { address := address
                     prefixLen := UInt8.ofNat prefixLen
                     gateway := gateway
                     dns := dns }

/-! ## Commands -/

inductive Command
  | help
  | show
  | start
  | setDhcp
  | setAuto
  | setDiscovery (enabled : Bool)
  | setStatic (ipv4 : Ipv4Config)
  | setClient (host : Ipv4) (port : UInt16)
  | setServer (port : UInt16)
  | setUpstream (mode : UpstreamMode)
  | reset
  deriving DecidableEq

/-- The commands without an argument of their own. -/
def fixedCommands : List (List String × Command) :=
  [(["help"], .help),
    (["show"], .show),
    (["start"], .start),
    (["set", "auto"], .setAuto),
    (["set", "discovery", "on"], .setDiscovery true),
    (["set", "discovery", "off"], .setDiscovery false),
    (["set", "discover"], .setClient Ipv4.zero 9000),
    (["set", "dhcp"], .setDhcp),
    (["set", "upstream", "uart"], .setUpstream .uart),
    (["set", "upstream", "i2c"], .setUpstream .i2c),
    (["set", "upstream", "usb"], .setUpstream .usb),
    (["set", "upstream", "spi"], .setUpstream .spi),
    (["set", "upstream", "spi_echo"], .setUpstream .spiEcho),
    (["set", "upstream", "spiecho"], .setUpstream .spiEcho),
    (["set", "upstream", "spi_static"], .setUpstream .spiStatic),
    (["set", "upstream", "spistatic"], .setUpstream .spiStatic),
    (["set", "upstream", "spi_line_high"], .setUpstream .spiLineHigh),
    (["set", "upstream", "spilinehigh"], .setUpstream .spiLineHigh),
    (["set", "upstream", "spi_line"], .setUpstream .spiLineHigh),
    (["set", "upstream", "test"], .setUpstream .test),
    (["reset"], .reset)]

def fixedCommand (tokens : List (List UInt8)) : Option Command :=
  (fixedCommands.find? fun entry => entry.1.map ascii == tokens).map Prod.snd

/-- The commands whose arguments are read from the line. -/
def parseArguments : List (List UInt8) → Parsed Command
  | [set, word, port] =>
      if set = ascii "set" ∧ word = ascii "server" then do
        return .setServer (← parsePort port)
      else rejected "unknown command"
  | [set, word, host, port] =>
      if set = ascii "set" ∧ word = ascii "client" then do
        let host ← parseIpv4 host
        let port ← parsePort port
        return .setClient host port
      else rejected "unknown command"
  | [set, word, cidr, gateway, dns] =>
      if set = ascii "set" ∧ word = ascii "static" then do
        return .setStatic (← parseStatic cidr gateway dns)
      else rejected "unknown command"
  | _ => rejected "unknown command"

/-- Collecting more tokens than the vector holds halts the firmware. -/
def parseCommand (line : List UInt8) : Parsed Command :=
  let tokens := splitAsciiWhitespace line
  if maxTokens < tokens.length then .error .panicked
  else if tokens.isEmpty then rejected "empty command"
  else
    let tokens := tokens.map trim
    match fixedCommand tokens with
    | some command => .ok command
    | none => parseArguments tokens

/-- The new configuration, and whether startup begins. -/
def applyCommand (config : BridgeConfig) : Command → BridgeConfig × Bool
  | .help | .show => (config, false)
  | .start => (config, true)
  | .setAuto => ({ config with addressMode := .auto }, false)
  | .setDiscovery enabled => ({ config with discovery := enabled }, false)
  | .setDhcp => ({ config with addressMode := .dhcp }, false)
  | .setStatic ipv4 => ({ config with addressMode := .static ipv4 }, false)
  | .setClient host port =>
      let config := { config with bridgeMode := .tcpClient host port }
      (if host = Ipv4.zero then { config with discovery := true } else config, false)
  | .setServer port => ({ config with bridgeMode := .tcpServer port }, false)
  | .setUpstream mode => ({ config with upstreamMode := mode }, false)
  | .reset => (config, false)

example :
    parseCommand (ascii "set static 192.168.10.50/24 192.168.10.1 1.1.1.1") =
      .ok (.setStatic
        { address := ⟨192, 168, 10, 50⟩
          prefixLen := 24
          gateway := ⟨192, 168, 10, 1⟩
          dns := ⟨1, 1, 1, 1⟩ }) := by
  decide +kernel

/-! ## Clients without a host -/

/-- A client that has no host to connect to looks for one on the network. -/
def CanFindPeer (config : BridgeConfig) : Prop :=
  ∀ port, config.bridgeMode = .tcpClient Ipv4.zero port → config.discovery = true

end PicoFi
