import Mathlib.Data.Nat.Log
import PicoFi.LocalCommands

/-!
# The configuration as text

`renderConfig` appends its fields to a string of 160 bytes and ignores what
does not fit.  Here are the text it is after, the width of that text, and when
the operator sees all of it.
-/

namespace PicoFi

open BoundedText

/-! ## Fields -/

def ipv4Text (ip : Ipv4) : List UInt8 :=
  decimalDigits ip.o0.toNat ++ ascii "." ++ decimalDigits ip.o1.toNat ++ ascii "." ++
    decimalDigits ip.o2.toNat ++ ascii "." ++ decimalDigits ip.o3.toNat

def hexByteText (value : UInt8) : List UInt8 :=
  [hexDigit (value.toNat / 16), hexDigit (value.toNat % 16)]

def macText (mac : Mac) : List UInt8 :=
  hexByteText mac.b0 ++ ascii ":" ++ hexByteText mac.b1 ++ ascii ":" ++
    hexByteText mac.b2 ++ ascii ":" ++ hexByteText mac.b3 ++ ascii ":" ++
    hexByteText mac.b4 ++ ascii ":" ++ hexByteText mac.b5

def discoveryText (discovery : Bool) : List UInt8 :=
  if discovery then ascii "discovery=on " else []

def AddressMode.text : AddressMode → List UInt8
  | .auto => ascii "ip=auto "
  | .dhcp => ascii "ip=dhcp "
  | .static ipv4 =>
      ascii "ip=static " ++ ipv4Text ipv4.address ++ ascii "/" ++
        decimalDigits ipv4.prefixLen.toNat ++ ascii " gw=" ++ ipv4Text ipv4.gateway ++
        ascii " dns=" ++ ipv4Text ipv4.dns ++ ascii " "

def BridgeMode.text : BridgeMode → List UInt8
  | .tcpClient host port =>
      ascii "mode=client dest=" ++ ipv4Text host ++ ascii ":" ++ decimalDigits port.toNat
  | .tcpServer port => ascii "mode=server listen=" ++ decimalDigits port.toNat

/-- All fields of the summary, none of them cut. -/
def configText (config : BridgeConfig) : List UInt8 :=
  ascii "mac=" ++ macText config.macAddress ++ ascii " " ++
    discoveryText config.discovery ++ config.addressMode.text ++
    config.bridgeMode.text ++ config.upstreamMode.text ++ config.uartPort.text

/-! ## Widths -/

def decimalWidth (n : ℕ) : ℕ := Nat.log 10 n + 1

def ipv4Width (ip : Ipv4) : ℕ :=
  decimalWidth ip.o0.toNat + decimalWidth ip.o1.toNat + decimalWidth ip.o2.toNat +
    decimalWidth ip.o3.toNat + 3

def AddressMode.width : AddressMode → ℕ
  | .auto => 8
  | .dhcp => 8
  | .static ipv4 =>
      21 + ipv4Width ipv4.address + decimalWidth ipv4.prefixLen.toNat +
        ipv4Width ipv4.gateway + ipv4Width ipv4.dns

def BridgeMode.width : BridgeMode → ℕ
  | .tcpClient host port => 18 + ipv4Width host + decimalWidth port.toNat
  | .tcpServer port => 19 + decimalWidth port.toNat

def UpstreamMode.width : UpstreamMode → ℕ
  | .uart => 14
  | .i2c => 13
  | .usb => 13
  | .spi => 13
  | .spiEcho => 18
  | .spiStatic => 20
  | .spiLineHigh => 23
  | .test => 14

def uartPortWidth : ℕ := 11

/-- The MAC address takes 22 characters, a discovery flag that is set 13. -/
def configWidth (config : BridgeConfig) : ℕ :=
  22 + (if config.discovery then 13 else 0) + config.addressMode.width +
    config.bridgeMode.width + config.upstreamMode.width + uartPortWidth

theorem length_decimalDigits (n : ℕ) : (decimalDigits n).length = decimalWidth n := by
  induction n using Nat.strong_induction_on with
  | h n ih =>
      rw [decimalDigits, decimalWidth]
      split
      next hsmall =>
        rw [Nat.log_of_lt hsmall]
        rfl
      next hlarge =>
        have htail := ih (n / 10) (by omega)
        rw [List.length_append, htail, decimalWidth, List.length_singleton,
          Nat.log_of_one_lt_of_le (by decide) (not_lt.mp hlarge)]

theorem length_ipv4Text (ip : Ipv4) : (ipv4Text ip).length = ipv4Width ip := by
  have hdot : (ascii ".").length = 1 := by decide
  simp only [ipv4Text, List.length_append, length_decimalDigits, hdot, ipv4Width]
  omega

theorem length_macText (mac : Mac) : (macText mac).length = 17 := by
  have hcolon : (ascii ":").length = 1 := by decide
  simp only [macText, hexByteText, List.length_append, hcolon, List.length_cons,
    List.length_nil]

theorem AddressMode.length_text (mode : AddressMode) :
    mode.text.length = mode.width := by
  cases mode with
  | auto => decide
  | dhcp => decide
  | static ipv4 =>
      have hip : (ascii "ip=static ").length = 10 := by decide
      have hslash : (ascii "/").length = 1 := by decide
      have hgateway : (ascii " gw=").length = 4 := by decide
      have hdns : (ascii " dns=").length = 5 := by decide
      have hspace : (ascii " ").length = 1 := by decide
      simp only [AddressMode.text, AddressMode.width, List.length_append,
        length_ipv4Text, length_decimalDigits, hip, hslash, hgateway, hdns, hspace]
      omega

theorem BridgeMode.length_text (mode : BridgeMode) : mode.text.length = mode.width := by
  cases mode with
  | tcpClient host port =>
      have hdest : (ascii "mode=client dest=").length = 17 := by decide
      have hcolon : (ascii ":").length = 1 := by decide
      simp only [BridgeMode.text, BridgeMode.width, List.length_append, length_ipv4Text,
        length_decimalDigits, hdest, hcolon]
      omega
  | tcpServer port =>
      have hlisten : (ascii "mode=server listen=").length = 19 := by decide
      simp only [BridgeMode.text, BridgeMode.width, List.length_append,
        length_decimalDigits, hlisten]

theorem UpstreamMode.length_text (mode : UpstreamMode) :
    mode.text.length = mode.width := by
  cases mode <;> decide

theorem UartPort.length_text (port : UartPort) : port.text.length = uartPortWidth := by
  cases port <;> decide

theorem length_configText (config : BridgeConfig) :
    (configText config).length = configWidth config := by
  have hmac : (ascii "mac=").length = 4 := by decide
  have hspace : (ascii " ").length = 1 := by decide
  have hdiscovery : (discoveryText config.discovery).length =
      if config.discovery then 13 else 0 := by
    cases config.discovery <;> decide
  simp only [configText, configWidth, List.length_append, length_macText,
    AddressMode.length_text, BridgeMode.length_text, UpstreamMode.length_text,
    UartPort.length_text, hmac, hspace, hdiscovery]

/-! ## Appends -/

theorem pushChars_eq_appendAll (cap : ℕ) (out chars : List UInt8) :
    pushChars cap out chars = appendAll cap out (characters chars) := by
  rw [pushChars, appendAll, characters, List.foldl_map, pushStr_eq_append]

theorem pushChars_pushChars (cap : ℕ) (out front back : List UInt8) :
    pushChars cap (pushChars cap out front) back = pushChars cap out (front ++ back) :=
  List.foldl_append.symm

theorem pushIpv4_eq_pushChars (out : List UInt8) (ip : Ipv4) :
    pushIpv4 out ip = pushChars configTextMax out (ipv4Text ip) := by
  simp only [pushIpv4, pushU8, pushChars_pushChars, ipv4Text]

theorem pushMac_eq_pushChars (out : List UInt8) (mac : Mac) :
    pushMac out mac = pushChars configTextMax out (macText mac) := by
  simp only [pushMac, pushHexByte, pushChars_pushChars, macText, hexByteText]

def AddressMode.pushes : AddressMode → List (List UInt8)
  | .auto => [ascii "ip=auto "]
  | .dhcp => [ascii "ip=dhcp "]
  | .static ipv4 =>
      [ascii "ip=static "] ++ characters (ipv4Text ipv4.address) ++
        characters (ascii "/") ++ characters (decimalDigits ipv4.prefixLen.toNat) ++
        [ascii " gw="] ++ characters (ipv4Text ipv4.gateway) ++
        [ascii " dns="] ++ characters (ipv4Text ipv4.dns) ++ characters (ascii " ")

def BridgeMode.pushes : BridgeMode → List (List UInt8)
  | .tcpClient host port =>
      [ascii "mode=client dest="] ++ characters (ipv4Text host) ++
        characters (ascii ":") ++ characters (decimalDigits port.toNat)
  | .tcpServer port =>
      [ascii "mode=server listen="] ++ characters (decimalDigits port.toNat)

/-- The texts `renderConfig` pushes up to the upstream mode, in order. -/
def firstPushes (config : BridgeConfig) : List (List UInt8) :=
  [ascii "mac="] ++ characters (macText config.macAddress) ++ characters (ascii " ") ++
    (if config.discovery then [ascii "discovery=on "] else []) ++
    config.addressMode.pushes ++ config.bridgeMode.pushes ++ [config.upstreamMode.text]

def configPushes (config : BridgeConfig) : List (List UInt8) :=
  firstPushes config ++ [config.uartPort.text]

theorem renderConfig_eq_appendAll (config : BridgeConfig) :
    renderConfig config = appendAll configTextMax [] (configPushes config) := by
  obtain ⟨discovery, mac, address, bridge, upstream, port⟩ := config
  cases discovery <;> cases address <;> cases bridge <;>
    simp only [renderConfig, configPushes, firstPushes, AddressMode.pushes,
      BridgeMode.pushes, appendAll_append, appendAll_cons, appendAll_nil,
      pushIpv4_eq_pushChars, pushMac_eq_pushChars, pushU8, pushU16,
      pushChars_eq_appendAll, pushStr_eq_append, if_true, if_false, Bool.false_eq_true]

theorem AddressMode.flatten_pushes (mode : AddressMode) :
    mode.pushes.flatten = mode.text := by
  cases mode <;> simp [AddressMode.pushes, AddressMode.text]

theorem BridgeMode.flatten_pushes (mode : BridgeMode) :
    mode.pushes.flatten = mode.text := by
  cases mode <;> simp [BridgeMode.pushes, BridgeMode.text]

theorem flatten_configPushes (config : BridgeConfig) :
    (configPushes config).flatten = configText config := by
  have hdiscovery : (if config.discovery then [ascii "discovery=on "] else []).flatten =
      discoveryText config.discovery := by
    cases config.discovery <;> rfl
  simp [configPushes, firstPushes, configText, hdiscovery, AddressMode.flatten_pushes,
    BridgeMode.flatten_pushes]

/-! ## When the operator sees every field -/

theorem fits_configPushes_iff (config : BridgeConfig) :
    Fits configTextMax [] (configPushes config).flatten ↔
      configWidth config ≤ configTextMax := by
  rw [Fits, flatten_configPushes, length_configText, List.length_nil, Nat.zero_add]

theorem renderConfig_eq_configText_iff (config : BridgeConfig) :
    renderConfig config = configText config ↔ configWidth config ≤ configTextMax := by
  rw [← fits_configPushes_iff, ← appendAll_eq_iff (Nat.zero_le _),
    renderConfig_eq_appendAll, flatten_configPushes, List.nil_append]

theorem length_renderConfig_le (config : BridgeConfig) :
    (renderConfig config).length ≤ configTextMax := by
  rw [renderConfig_eq_appendAll]
  exact length_appendAll_le (Nat.zero_le _) _

/-- The response buffer is larger than the rendered configuration. -/
theorem renderLocalBridgeCommand_show (config : BridgeConfig)
    (runtime : CommandRuntime) :
    renderLocalBridgeCommand config runtime (ascii "/show") = renderConfig config := by
  have hlength := length_renderConfig_le config
  have hhelp : ascii "/show" ≠ ascii "/help" := by decide
  have hroom : Fits commandTextMax [] (renderConfig config) := by
    simp only [Fits, List.length_nil, Nat.zero_add]
    exact hlength.trans (by decide)
  rw [renderLocalBridgeCommand, if_neg hhelp, if_pos rfl, pushStr_eq_append,
    append_of_fits hroom, List.nil_append]

/-- No push fails, and both the rendering and `/show` carry every field. -/
structure RendersWhole (config : BridgeConfig) : Prop where
  pushes_fit : Runs.AllSteps (pushStr configTextMax)
    (fun out text => out.length + text.length ≤ configTextMax) [] (configPushes config)
  render_eq : renderConfig config = configText config
  show_eq : ∀ runtime,
    renderLocalBridgeCommand config runtime (ascii "/show") = configText config

/-- The operator sees every field exactly when the widths of the fields add up
to at most 160. -/
theorem rendersWhole_iff (config : BridgeConfig) :
    RendersWhole config ↔ configWidth config ≤ configTextMax := by
  constructor
  · intro hwhole
    exact (renderConfig_eq_configText_iff config).mp hwhole.render_eq
  · intro hwidth
    have hrender := (renderConfig_eq_configText_iff config).mpr hwidth
    constructor
    · exact (allSteps_fits_iff (Nat.zero_le _) _).mpr
        ((fits_configPushes_iff config).mpr hwidth)
    · exact hrender
    · intro runtime
      rw [renderLocalBridgeCommand_show, hrender]

/-! ## What overruns, and what is lost first -/

theorem decimalWidth_le {n k : ℕ} (hk : k ≠ 0) (hn : n < 10 ^ k) : decimalWidth n ≤ k :=
  Nat.log_lt_of_lt_pow' hk hn

theorem ipv4Width_le (ip : Ipv4) : ipv4Width ip ≤ 15 := by
  have hoctet : ∀ octet : UInt8, decimalWidth octet.toNat ≤ 3 := fun octet =>
    decimalWidth_le (by decide) (octet.toNat_lt.trans (by decide))
  have h0 := hoctet ip.o0
  have h1 := hoctet ip.o1
  have h2 := hoctet ip.o2
  have h3 := hoctet ip.o3
  rw [ipv4Width]
  omega

theorem BridgeMode.width_le (mode : BridgeMode) : mode.width ≤ 38 := by
  have hport : ∀ port : UInt16, decimalWidth port.toNat ≤ 5 := fun port =>
    decimalWidth_le (by decide) (port.toNat_lt.trans (by decide))
  cases mode with
  | tcpClient host port =>
      have hhost := ipv4Width_le host
      have h := hport port
      rw [BridgeMode.width]
      omega
  | tcpServer port =>
      have h := hport port
      rw [BridgeMode.width]
      omega

theorem UpstreamMode.width_le (mode : UpstreamMode) : mode.width ≤ 23 := by
  cases mode <;> decide

/-- Without a static address there is room for every field. -/
theorem renderConfig_of_not_static {config : BridgeConfig}
    (hmode : ∀ ipv4, config.addressMode ≠ .static ipv4) :
    renderConfig config = configText config := by
  rw [renderConfig_eq_configText_iff, configWidth, configTextMax, uartPortWidth]
  have hbridge := config.bridgeMode.width_le
  have hupstream := config.upstreamMode.width_le
  have haddress : config.addressMode.width = 8 := by
    cases h : config.addressMode with
    | auto => rfl
    | dhcp => rfl
    | static ipv4 => exact absurd h (hmode ipv4)
  split <;> omega

/-- An overrun by no more than the last field costs that field. -/
theorem renderConfig_append_uartPort {config : BridgeConfig}
    (hover : configTextMax < configWidth config)
    (hfits : configWidth config ≤ configTextMax + uartPortWidth) :
    renderConfig config ++ config.uartPort.text = configText config := by
  have hlength : (firstPushes config).flatten.length + uartPortWidth =
      configWidth config := by
    rw [← length_configText, ← flatten_configPushes, configPushes, List.flatten_append,
      List.length_append, List.flatten_singleton, UartPort.length_text]
  have hfirst : Fits configTextMax [] (firstPushes config).flatten := by
    simp only [Fits, List.length_nil]
    omega
  have hlast : ¬Fits configTextMax (firstPushes config).flatten config.uartPort.text := by
    rw [Fits, UartPort.length_text]
    omega
  rw [renderConfig_eq_appendAll, configPushes, appendAll_append, appendAll_of_fits hfirst,
    List.nil_append, appendAll_cons, appendAll_nil, append_of_not_fits hlast,
    ← flatten_configPushes, configPushes, List.flatten_append, List.flatten_singleton]

/-- Four addresses of fifteen characters, discovery on, the UART upstream. -/
def longAddresses : BridgeConfig where
  discovery := true
  macAddress := ⟨2, 1, 2, 3, 4, 5⟩
  addressMode := .static
    { address := ⟨192, 168, 100, 150⟩
      prefixLen := 24
      gateway := ⟨192, 168, 100, 254⟩
      dns := ⟨192, 168, 100, 253⟩ }
  bridgeMode := .tcpClient ⟨192, 168, 100, 200⟩ 50000
  upstreamMode := .uart
  uartPort := .uart0

theorem configWidth_longAddresses : configWidth longAddresses = 166 := by
  decide +kernel

theorem longAddresses_lose_uartPort :
    renderConfig longAddresses ++ ascii " uart=uart0" = configText longAddresses ∧
      ¬∀ config, RendersWhole config := by
  have hwidth := configWidth_longAddresses
  constructor
  · exact renderConfig_append_uartPort (by rw [hwidth]; decide) (by rw [hwidth]; decide)
  · intro hall
    have hrender := (hall longAddresses).render_eq
    rw [renderConfig_eq_configText_iff, hwidth] at hrender
    exact absurd hrender (by decide)

end PicoFi
