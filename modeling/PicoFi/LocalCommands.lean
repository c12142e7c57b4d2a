import PicoFi.BridgeConfig

/-!
# Local bridge commands

Text lines are byte lists; `trim_ascii_line` reads an invalid UTF-8 line as
empty.  The counters and diagnostics some commands print are texts of the
runtime, read when the command is rendered.
-/

namespace PicoFi

/-! ## Lines -/

def contBetween (low high : UInt8) : List UInt8 → Bool
  | b :: _ => decide (low ≤ b ∧ b ≤ high)
  | [] => false

/-- `core::str::from_utf8` accepts the bytes: the well-formed sequences of
one to four bytes. -/
def validUtf8 : List UInt8 → Bool
  | [] => true
  | b :: rest =>
      if b < 0x80 then validUtf8 rest
      else if 0xC2 ≤ b ∧ b ≤ 0xDF then
        contBetween 0x80 0xBF rest && validUtf8 (rest.drop 1)
      else if 0xE0 ≤ b ∧ b ≤ 0xEF then
        contBetween (if b = 0xE0 then 0xA0 else 0x80)
            (if b = 0xED then 0x9F else 0xBF) rest &&
          contBetween 0x80 0xBF (rest.drop 1) && validUtf8 (rest.drop 2)
      else if 0xF0 ≤ b ∧ b ≤ 0xF4 then
        contBetween (if b = 0xF0 then 0x90 else 0x80)
            (if b = 0xF4 then 0x8F else 0xBF) rest &&
          contBetween 0x80 0xBF (rest.drop 1) &&
          contBetween 0x80 0xBF (rest.drop 2) && validUtf8 (rest.drop 3)
      else false
termination_by bytes => bytes.length
decreasing_by all_goals simp_wf; try omega

def Printable (b : UInt8) : Prop := 32 ≤ b ∧ b ≤ 126

instance (b : UInt8) : Decidable (Printable b) :=
  inferInstanceAs (Decidable (_ ∧ _))

theorem validUtf8_of_ascii {bytes : List UInt8}
    (hbytes : ∀ b ∈ bytes, b < 0x80) : validUtf8 bytes = true := by
  induction bytes with
  | nil => simp [validUtf8]
  | cons b bytes ih =>
      rw [validUtf8, if_pos (hbytes b (by simp))]
      exact ih fun c hc => hbytes c (by simp [hc])

theorem Printable.ascii {b : UInt8} (hb : Printable b) : b < 0x80 :=
  UInt8.lt_of_le_of_lt hb.2 (by decide)

/-- The characters `trim_ascii_line` removes at both ends. -/
def IsLineSpace (b : UInt8) : Bool :=
  b == 13 || b == 10 || b == 32 || b == 9

def trimAsciiLine (buf : List UInt8) : List UInt8 :=
  let text := if validUtf8 buf then buf else []
  ((text.dropWhile IsLineSpace).reverse.dropWhile IsLineSpace).reverse

/-- `line.starts_with('/')` -/
def StartsWithSlash (line : List UInt8) : Bool := line.head? == some 47

/-! ## Rendering a command -/

/-- What the commands print of the running firmware: the link and LED states
and the texts rendered from counters. -/
structure CommandRuntime where
  linkActive : Bool
  ledOn : Bool
  cores : List UInt8
  queues : List UInt8
  spi : List UInt8

/-- The link is down and nothing has been counted yet. -/
def CommandRuntime.idle : CommandRuntime where
  linkActive := false
  ledOn := false
  cores := []
  queues := []
  spi := []

abbrev commandTextMax : ℕ := 192

/-- The text of the response to a locally handled command; storing an LED
command is left out. -/
def renderLocalBridgeCommand (config : BridgeConfig) (runtime : CommandRuntime)
    (line : List UInt8) : List UInt8 :=
  let text :=
    if line = ascii "/help" then
      ascii ("pico commands: /help /show /ping /link /spi /queues /cores " ++
        "/led <on|off|toggle|auto|status>")
    else if line = ascii "/show" then renderConfig config
    else if line = ascii "/ping" then ascii "pong"
    else if line = ascii "/link" then
      if runtime.linkActive then ascii "link up" else ascii "link down"
    else if line = ascii "/cores" then runtime.cores
    else if line = ascii "/queues" then runtime.queues
    else if line = ascii "/spi" then runtime.spi
    else if line = ascii "/led on" then ascii "ok led on"
    else if line = ascii "/led off" then ascii "ok led off"
    else if line = ascii "/led toggle" then ascii "ok led toggle"
    else if line = ascii "/led auto" then ascii "ok led auto"
    else if line = ascii "/led status" then
      if runtime.ledOn then ascii "led on" else ascii "led off"
    else ascii "error unknown pico command"
  pushStr commandTextMax [] text

theorem length_renderLocalBridgeCommand_le (config : BridgeConfig)
    (runtime : CommandRuntime) (line : List UInt8) :
    (renderLocalBridgeCommand config runtime line).length ≤ commandTextMax := by
  rw [renderLocalBridgeCommand, pushStr_eq_append]
  exact BoundedText.length_append_le (Nat.zero_le _) _

end PicoFi
