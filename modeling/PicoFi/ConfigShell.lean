import PicoFi.ConfigCommands
import PicoFi.StepRuns

/-!
# The configuration shell

Before the bridge starts, the shell reads command lines and writes every
change through to a flash sector.  Over all lines and power cycles the
configuration in memory is the one the flash gives back.  Over the lines of
one shell, a client without a host loses its way to a peer exactly when
discovery is switched off under it.
-/

namespace PicoFi

open Buffer

/-! ## Flash -/

abbrev eraseSize : ℕ := 4096

/-- The reserved sector at the end of the flash. -/
abbrev Sector := FixedBytes eraseSize

def Sector.blank : Sector := ⟨List.replicate eraseSize 0xff, List.length_replicate⟩

def Sector.erase (_ : Sector) : Sector := blank

theorem recordSize_le_eraseSize : recordSize ≤ eraseSize := by decide

/-- Programming clears bits and sets none. -/
def Sector.program (sector : Sector) (buf : Record) : Sector :=
  sector.write 0 (List.zipWith (· &&& ·) sector.toList buf.toList) (by
    simp [sector.length_toList, buf.length_toList, recordSize_le_eraseSize])

/-- The record at the start of the sector. -/
def Sector.record (sector : Sector) : Record :=
  ⟨sector.toList.take recordSize, by
    simp [sector.length_toList, recordSize_le_eraseSize]⟩

namespace ConfigStorage

def load (flash : Sector) : Option BridgeConfig := decodeRecord flash.record

def save (flash : Sector) (config : BridgeConfig) : Sector :=
  flash.erase.program (encodeRecord config)

def reset (flash : Sector) : Sector := flash.erase

theorem and_erased (b : UInt8) : 0xff &&& b = b :=
  UInt8.eq_of_toBitVec_eq (BitVec.allOnes_and (x := b.toBitVec))

theorem zipWith_and_erased {bytes : List UInt8} {n : ℕ} (hn : bytes.length ≤ n) :
    List.zipWith (· &&& ·) (List.replicate n 0xff) bytes = bytes := by
  induction bytes generalizing n with
  | nil => simp
  | cons b bytes ih =>
      obtain ⟨n, rfl⟩ := Nat.exists_eq_succ_of_ne_zero (Nat.ne_zero_of_lt hn)
      rw [List.replicate_succ, List.zipWith_cons_cons, and_erased,
        ih (Nat.le_of_succ_le_succ hn)]

theorem record_program_erase (flash : Sector) (buf : Record) :
    (flash.erase.program buf).record = buf := by
  have hlength := buf.length_toList
  have hand : List.zipWith (· &&& ·) flash.erase.toList buf.toList = buf.toList :=
    zipWith_and_erased (hlength.trans_le recordSize_le_eraseSize)
  apply FixedBytes.ext
  simp only [Sector.record, Sector.program, FixedBytes.write, hand, splice_zero]
  exact List.take_left' hlength

theorem load_save (flash : Sector) (config : BridgeConfig) :
    load (save flash config) = some config := by
  rw [load, save, record_program_erase, decodeRecord_encodeRecord]

theorem load_reset (flash : Sector) : load (reset flash) = none := by
  have hrecord : (reset flash).record.toList = List.replicate recordSize 0xff := by
    simp [reset, Sector.record, Sector.erase, Sector.blank, List.take_replicate,
      recordSize_le_eraseSize]
  rw [load, decodeRecord, if_neg]
  rintro ⟨hmagic, -⟩
  rw [hrecord] at hmagic
  exact absurd hmagic (by decide)

end ConfigStorage

/-! ## The shell -/

inductive ShellPhase
  | running
  | ended
  | halted
  deriving DecidableEq

structure Shell where
  config : BridgeConfig
  flash : Sector
  abortOnNonShellByte : Bool
  phase : ShellPhase

/-- A line read before the window closes, the other outcomes of reading one,
and the end of the window. -/
inductive ShellEvent
  | ready (line : List UInt8)
  | idle
  | busyTraffic
  | readError
  | deadline

namespace Shell

def start (initialConfig : BridgeConfig) (flash : Sector) : Shell where
  config := initialConfig
  flash := flash
  abortOnNonShellByte := initialConfig.upstreamMode = .uart
  phase := .running

def runCommand (compiled : BridgeConfig) (s : Shell) : Command → Shell
  | .help | .show => s
  | .reset => { s with config := compiled, flash := ConfigStorage.reset s.flash }
  | command =>
      let (config, started) := applyCommand s.config command
      if started then { s with config := config, phase := .ended }
      else { s with config := config, flash := ConfigStorage.save s.flash config }

def step (compiled : BridgeConfig) (s : Shell) (event : ShellEvent) : Shell :=
  if s.phase ≠ .running then s
  else
    match event with
    | .ready line =>
        match parseCommand line with
        | .ok command => s.runCommand compiled command
        | .error (.rejected _) => s
        | .error .panicked => { s with phase := .halted }
    | .idle | .readError => s
    | .busyTraffic => if s.abortOnNonShellByte then { s with phase := .ended } else s
    | .deadline => { s with phase := .ended }

end Shell

/-! ## Boots -/

/-- The upstream modes for which `app` ignores the stored record. -/
def UpstreamMode.ignoresRecord : UpstreamMode → Bool
  | .i2c | .spi | .spiEcho | .spiStatic | .spiLineHigh => true
  | .uart | .usb | .test => false

def initialConfig (compiled : BridgeConfig) (flash : Sector) : BridgeConfig :=
  if compiled.upstreamMode.ignoresRecord then compiled
  else (ConfigStorage.load flash).getD compiled

inductive DeviceEvent
  | shell (event : ShellEvent)
  | powerCycle

namespace Shell

def boot (compiled : BridgeConfig) (flash : Sector) : Shell :=
  start (initialConfig compiled flash) flash

def deviceStep (compiled : BridgeConfig) (s : Shell) : DeviceEvent → Shell
  | .shell event => s.step compiled event
  | .powerCycle => boot compiled s.flash

/-! ## The stored configuration -/

/-- What the next boot will find is what the shell holds. -/
def Persisted (compiled : BridgeConfig) (s : Shell) : Prop :=
  s.config = (ConfigStorage.load s.flash).getD compiled

theorem persisted_runCommand {compiled : BridgeConfig} {s : Shell}
    (h : s.Persisted compiled) (command : Command) :
    (s.runCommand compiled command).Persisted compiled := by
  have hsaved : ∀ config, ({ s with
      config := config
      flash := ConfigStorage.save s.flash config } : Shell).Persisted compiled := by
    intro config
    rw [Persisted, ConfigStorage.load_save]
    rfl
  cases command with
  | help => exact h
  | «show» => exact h
  | start => exact h
  | reset =>
      rw [Persisted, runCommand, ConfigStorage.load_reset]
      rfl
  | setDhcp => exact hsaved _
  | setAuto => exact hsaved _
  | setDiscovery enabled => exact hsaved _
  | setStatic ipv4 => exact hsaved _
  | setClient host port => exact hsaved _
  | setServer port => exact hsaved _
  | setUpstream mode => exact hsaved _

theorem persisted_step {compiled : BridgeConfig} {s : Shell}
    (h : s.Persisted compiled) (event : ShellEvent) :
    (s.step compiled event).Persisted compiled := by
  unfold step
  split
  · exact h
  · cases event with
    | ready line =>
        dsimp only
        split
        · exact persisted_runCommand h _
        · exact h
        · exact h
    | idle => exact h
    | readError => exact h
    | busyTraffic =>
        dsimp only
        split <;> exact h
    | deadline => exact h

theorem persisted_boot {compiled : BridgeConfig}
    (hrecord : compiled.upstreamMode.ignoresRecord = false) (flash : Sector) :
    (boot compiled flash).Persisted compiled := by
  simp [Persisted, boot, start, initialConfig, hrecord]

theorem persisted_run {compiled : BridgeConfig}
    (hrecord : compiled.upstreamMode.ignoresRecord = false) (flash : Sector)
    (events : List DeviceEvent) :
    (events.foldl (deviceStep compiled) (boot compiled flash)).Persisted compiled := by
  apply Runs.invariant
  · intro s event h
    cases event with
    | shell event => exact persisted_step h event
    | powerCycle => exact persisted_boot hrecord s.flash
  · exact persisted_boot hrecord flash

/-- In every state of every run the configuration is the one the flash gives
back, so the next boot starts from it. -/
theorem config_survives_boot {compiled : BridgeConfig}
    (hrecord : compiled.upstreamMode.ignoresRecord = false) :
    (∀ config, decodeRecord (encodeRecord config) = some config) ∧
      ∀ (flash : Sector) (events : List DeviceEvent),
        let s := events.foldl (deviceStep compiled) (boot compiled flash)
        s.config = (decodeRecord s.flash.record).getD compiled ∧
          initialConfig compiled s.flash = s.config := by
  refine ⟨decodeRecord_encodeRecord, ?_⟩
  intro flash events s
  have hpersisted : s.Persisted compiled := persisted_run hrecord flash events
  refine ⟨hpersisted, ?_⟩
  rw [initialConfig, hrecord, hpersisted]
  rfl

def usbServer : BridgeConfig := { BridgeConfig.spiServer with upstreamMode := .usb }

theorem usbServer_config_survives_boot :
    (∀ config, decodeRecord (encodeRecord config) = some config) ∧
      ∀ (flash : Sector) (events : List DeviceEvent),
        let s := events.foldl (deviceStep usbServer) (boot usbServer flash)
        s.config = (decodeRecord s.flash.record).getD usbServer ∧
          initialConfig usbServer s.flash = s.config :=
  config_survives_boot rfl

/-! ## Clients that can find a peer -/

/-- Discovery is not switched off under a client without a host. -/
def KeepsDiscovery (s : Shell) (event : ShellEvent) : Prop :=
  ∀ line port, event = .ready line → parseCommand line = .ok (.setDiscovery false) →
    s.phase = .running → s.config.bridgeMode ≠ .tcpClient Ipv4.zero port

theorem canFindPeer_applyCommand {config : BridgeConfig} (h : CanFindPeer config)
    {command : Command} (hcommand : command ≠ .setDiscovery false) :
    CanFindPeer (applyCommand config command).1 := by
  cases command with
  | setDiscovery enabled =>
      cases enabled with
      | false => exact absurd rfl hcommand
      | true => exact fun _ _ => rfl
  | setClient host port =>
      intro otherPort hmode
      by_cases hhost : host = Ipv4.zero
      · simp [applyCommand, hhost]
      · simp [applyCommand, hhost] at hmode
  | setServer port =>
      intro otherPort hmode
      simp [applyCommand] at hmode
  | help => exact h
  | «show» => exact h
  | start => exact h
  | setDhcp => exact h
  | setAuto => exact h
  | setStatic ipv4 => exact h
  | setUpstream mode => exact h
  | reset => exact h

theorem canFindPeer_discoveryOff {config : BridgeConfig} :
    CanFindPeer (applyCommand config (.setDiscovery false)).1 ↔
      ∀ port, config.bridgeMode ≠ .tcpClient Ipv4.zero port := by
  simp [CanFindPeer, applyCommand]

theorem config_runCommand {compiled : BridgeConfig} {s : Shell} {command : Command}
    (hreset : command ≠ .reset) :
    (s.runCommand compiled command).config = (applyCommand s.config command).1 := by
  cases command <;> first | rfl | exact absurd rfl hreset

theorem canFindPeer_runCommand {compiled : BridgeConfig} (hcompiled : CanFindPeer compiled)
    {s : Shell} (h : CanFindPeer s.config) (command : Command) :
    CanFindPeer (s.runCommand compiled command).config ↔
      (command = .setDiscovery false →
        ∀ port, s.config.bridgeMode ≠ .tcpClient Ipv4.zero port) := by
  by_cases hreset : command = .reset
  · subst hreset
    exact ⟨fun _ hoff => by contradiction, fun _ => hcompiled⟩
  · rw [config_runCommand hreset]
    by_cases hoff : command = .setDiscovery false
    · subst hoff
      rw [canFindPeer_discoveryOff]
      exact ⟨fun hmode _ => hmode, fun hmode => hmode rfl⟩
    · exact ⟨fun _ hcommand => absurd hcommand hoff,
        fun _ => canFindPeer_applyCommand h hoff⟩

/-- Every event but a command that is run leaves the configuration alone. -/
theorem config_step {compiled : BridgeConfig} {s : Shell} {event : ShellEvent}
    (hquiet : ∀ line command, event = .ready line →
      parseCommand line = .ok command → s.phase ≠ .running) :
    (s.step compiled event).config = s.config := by
  unfold step
  split
  next => rfl
  next hrunning =>
    cases event with
    | ready line =>
        dsimp only
        split
        next command hparse =>
          exact absurd (not_not.mp hrunning) (hquiet line command rfl hparse)
        next => rfl
        next => rfl
    | idle => rfl
    | readError => rfl
    | busyTraffic =>
        dsimp only
        split <;> rfl
    | deadline => rfl

theorem step_ready {compiled : BridgeConfig} {s : Shell} {line : List UInt8}
    {command : Command} (hrunning : s.phase = .running)
    (hparse : parseCommand line = .ok command) :
    s.step compiled (.ready line) = s.runCommand compiled command := by
  rw [step, if_neg (not_not.mpr hrunning), hparse]

theorem canFindPeer_step {compiled : BridgeConfig} (hcompiled : CanFindPeer compiled)
    {s : Shell} (h : CanFindPeer s.config) (event : ShellEvent) :
    CanFindPeer (s.step compiled event).config ↔ s.KeepsDiscovery event := by
  by_cases hruns : ∃ line command, event = .ready line ∧
      parseCommand line = .ok command ∧ s.phase = .running
  · obtain ⟨line, command, rfl, hparse, hrunning⟩ := hruns
    rw [step_ready hrunning hparse, canFindPeer_runCommand hcompiled h]
    constructor
    · intro hkeeps other port hline hoff _
      obtain rfl := ShellEvent.ready.inj hline
      exact hkeeps (Except.ok.inj (hparse.symm.trans hoff)) port
    · intro hkeeps hoff port
      exact hkeeps line port rfl (hoff ▸ hparse) hrunning
  · rw [config_step fun line command hready hparse hrunning =>
      hruns ⟨line, command, hready, hparse, hrunning⟩]
    refine ⟨fun _ line port hready hoff hrunning => ?_, fun _ => h⟩
    exact absurd ⟨line, _, hready, hoff, hrunning⟩ hruns

/-- A run of the shell keeps the invariant exactly as long as discovery is not
switched off under a client without a host. -/
theorem canFindPeer_run_iff {compiled initialConfig : BridgeConfig}
    (hcompiled : CanFindPeer compiled) (hinitial : CanFindPeer initialConfig)
    (flash : Sector) (events : List ShellEvent) :
    (∀ front, front <+: events →
        CanFindPeer (front.foldl (step compiled) (start initialConfig flash)).config) ↔
      Runs.AllSteps (step compiled) KeepsDiscovery (start initialConfig flash) events := by
  have hstep : ∀ s event, CanFindPeer s.config →
      (CanFindPeer (step compiled s event).config ↔ KeepsDiscovery s event) :=
    fun _ event h => canFindPeer_step hcompiled h event
  have hstart : CanFindPeer (start initialConfig flash).config := hinitial
  exact (Runs.allSteps_iff hstep hstart events).symm

theorem canFindPeer_spiServer : CanFindPeer .spiServer :=
  fun _ hmode => by simp [BridgeConfig.spiServer] at hmode

theorem canFindPeer_discover_iff :
    (∀ front, front <+: [.ready (ascii "set discover")] →
        CanFindPeer
          (front.foldl (step .spiServer) (start .spiServer Sector.blank)).config) ↔
      Runs.AllSteps (step .spiServer) KeepsDiscovery (start .spiServer Sector.blank)
        [.ready (ascii "set discover")] :=
  canFindPeer_run_iff canFindPeer_spiServer canFindPeer_spiServer Sector.blank _

/-- Discovery switched off after a client without a host was chosen. -/
theorem discovery_off_strands_client :
    ¬∀ (compiled initialConfig : BridgeConfig) (flash : Sector) (lines : List (List UInt8)),
      CanFindPeer compiled → CanFindPeer initialConfig →
      (∀ line ∈ lines, ∃ command, parseCommand line = .ok command) →
      CanFindPeer ((lines.map ShellEvent.ready).foldl (step compiled)
        (start initialConfig flash)).config := by
  intro hall
  have hdiscover : parseCommand (ascii "set discover") =
      .ok (.setClient Ipv4.zero 9000) := by decide +kernel
  have hoff : parseCommand (ascii "set discovery off") =
      .ok (.setDiscovery false) := by decide +kernel
  have hlines : ∀ line ∈ [ascii "set discover", ascii "set discovery off"],
      ∃ command, parseCommand line = .ok command := by
    simp only [List.forall_mem_cons]
    exact ⟨⟨_, hdiscover⟩, ⟨_, hoff⟩, by simp⟩
  have hpeer := hall .spiServer .spiServer Sector.blank _ canFindPeer_spiServer
    canFindPeer_spiServer hlines
  simp only [List.map_cons, List.map_nil, List.foldl_cons, List.foldl_nil] at hpeer
  rw [step_ready rfl hdiscover, step_ready rfl hoff] at hpeer
  exact absurd (hpeer 9000 rfl) (by decide)

end Shell

end PicoFi
