import PicoFi.ConfigShell
import PicoFi.LocalCommands

/-!
# Lines of the configuration shell

The shell edits one line of at most 128 characters and parses it.  The reader
gives the parser every line of printable characters and no other, the parser
survives a line exactly when its tokens fit into the token vector, and the
shell survives a run exactly when this holds of every line it parses.
-/

namespace PicoFi

open Buffer

/-! ## Reading a line -/

abbrev shellLineMax : ℕ := 128

/-- One wakeup of the reader.  A byte is echoed unless the write fails; a
timeout may come after the deadline of the shell. -/
inductive LineEvent
  | byte (b : UInt8) (echoed : Bool)
  | readError
  | timeout (expired : Bool)

inductive ReadLineOutcome
  | ready
  | idle
  | busyTraffic
  deriving DecidableEq

abbrev LineResult := Except Unit ReadLineOutcome

def readLineStep (abortOnNonShellByte : Bool) (line : List UInt8) :
    LineEvent → List UInt8 × Option LineResult
  | .byte b echoed =>
      if b = 13 ∨ b = 10 then (line, some (.ok .ready))
      else if b = 8 ∨ b = 127 then (line.dropLast, none)
      else if Printable b then
        if line.length < shellLineMax then
          (line ++ [b], if echoed then none else some (.error ()))
        else (line, none)
      else if abortOnNonShellByte then ([], some (.ok .busyTraffic))
      else (line, none)
  | .readError => (line, some (.error ()))
  | .timeout expired =>
      if expired then ([], some (.ok .idle))
      else if line.isEmpty then (line, some (.ok .idle))
      else (line, none)

/-- The outcome with the line it leaves; `none` while the reader waits. -/
def readLineWithTimeout (abortOnNonShellByte : Bool) :
    List UInt8 → List LineEvent → Option (LineResult × List UInt8)
  | _, [] => none
  | line, event :: events =>
      match readLineStep abortOnNonShellByte line event with
      | (line, some result) => some (result, line)
      | (line, none) => readLineWithTimeout abortOnNonShellByte line events

structure ShellLine (line : List UInt8) : Prop where
  length_le : line.length ≤ shellLineMax
  printable : ∀ b ∈ line, Printable b

theorem ShellLine.nil : ShellLine [] := by
  constructor <;> simp

theorem ShellLine.dropLast {line : List UInt8} (h : ShellLine line) :
    ShellLine line.dropLast := by
  constructor
  · have hlength := h.length_le
    rw [List.length_dropLast]
    omega
  · intro b hb
    exact h.printable b (List.mem_of_mem_dropLast hb)

theorem ShellLine.concat {line : List UInt8} {b : UInt8} (h : ShellLine line)
    (hb : Printable b) (hroom : line.length < shellLineMax) :
    ShellLine (line ++ [b]) := by
  constructor
  · rw [List.length_append, List.length_singleton]
    exact hroom
  · intro c hc
    rcases List.mem_append.mp hc with hc | hc
    · exact h.printable c hc
    · rw [List.mem_singleton.mp hc]
      exact hb

theorem shellLine_readLineStep {abort : Bool} {line : List UInt8} (h : ShellLine line)
    (event : LineEvent) : ShellLine (readLineStep abort line event).1 := by
  cases event with
  | byte b echoed =>
      unfold readLineStep
      dsimp only
      split
      · exact h
      · split
        · exact h.dropLast
        · split
          next hprintable =>
            split
            next hroom => exact h.concat hprintable hroom
            next => exact h
          next =>
            split
            · exact .nil
            · exact h
  | readError => exact h
  | timeout expired =>
      unfold readLineStep
      dsimp only
      split
      · exact .nil
      · split <;> exact h

theorem shellLine_readLine {abort : Bool} {line final : List UInt8} {result : LineResult}
    (h : ShellLine line) {events : List LineEvent}
    (hread : readLineWithTimeout abort line events = some (result, final)) :
    ShellLine final := by
  induction events generalizing line with
  | nil => simp [readLineWithTimeout] at hread
  | cons event events ih =>
      have hnext := @shellLine_readLineStep abort line h event
      rw [readLineWithTimeout] at hread
      split at hread
      next next _ hstep =>
        rw [hstep] at hnext
        obtain ⟨-, rfl⟩ := Prod.mk.inj (Option.some.inj hread)
        exact hnext
      next next hstep =>
        rw [hstep] at hnext
        exact ih hnext hread

/-- A line typed without a mistake, and its end. -/
def typed (line : List UInt8) : List LineEvent :=
  line.map (LineEvent.byte · true) ++ [.byte 13 true]

theorem readLineStep_printable {abort : Bool} {line : List UInt8} {b : UInt8}
    (hb : Printable b) (hroom : line.length < shellLineMax) :
    readLineStep abort line (.byte b true) = (line ++ [b], none) := by
  have hend : ¬(b = 13 ∨ b = 10) := by
    rintro (rfl | rfl) <;> exact absurd hb (by decide)
  have herase : ¬(b = 8 ∨ b = 127) := by
    rintro (rfl | rfl) <;> exact absurd hb (by decide)
  rw [readLineStep, if_neg hend, if_neg herase, if_pos hb, if_pos hroom]
  rfl

theorem readLine_typed {abort : Bool} {front line : List UInt8}
    (h : ShellLine (front ++ line)) :
    readLineWithTimeout abort front (typed line) = some (.ok .ready, front ++ line) := by
  induction line generalizing front with
  | nil => simp [typed, readLineWithTimeout, readLineStep]
  | cons b line ih =>
      have hlength := h.length_le
      have hroom : front.length < shellLineMax := by
        rw [List.length_append, List.length_cons] at hlength
        omega
      have hb : Printable b := h.printable b (by simp)
      rw [List.append_cons] at h ⊢
      rw [← ih h, typed, List.map_cons, List.cons_append, readLineWithTimeout,
        readLineStep_printable hb hroom]
      rfl

/-- The lines the reader produces: printable characters and spaces, at most 128
of them. -/
theorem exists_readLine_iff {abort : Bool} {line : List UInt8} :
    (∃ events, readLineWithTimeout abort [] events = some (.ok .ready, line)) ↔
      ShellLine line := by
  constructor
  · rintro ⟨events, hread⟩
    exact shellLine_readLine .nil hread
  · intro h
    exact ⟨typed line, @readLine_typed abort [] line h⟩

/-! ## What a parser ensures -/

/-- The parser does not halt the firmware, and a value it reports meets the
condition. -/
def Ensures {α : Type} (Post : α → Prop) : Parsed α → Prop
  | .ok a => Post a
  | .error failure => failure ≠ .panicked

theorem ensures_iff {α : Type} {Post : α → Prop} {parsed : Parsed α} :
    Ensures Post parsed ↔
      parsed ≠ .error .panicked ∧ ∀ a, parsed = .ok a → Post a := by
  cases parsed with
  | ok a => simp [Ensures]
  | error failure => simp [Ensures]

theorem ensures_rejected {α : Type} {Post : α → Prop} (err : String) :
    Ensures Post (rejected err) := fun h => ParseFailure.noConfusion h

theorem Ensures.bind {α β : Type} {Mid : α → Prop} {Post : β → Prop} {parsed : Parsed α}
    {next : α → Parsed β} (hparsed : Ensures Mid parsed)
    (hnext : ∀ a, Mid a → Ensures Post (next a)) : Ensures Post (parsed >>= next) := by
  cases parsed with
  | ok a => exact hnext a hparsed
  | error failure => exact hparsed

abbrev Returns {α : Type} (parsed : Parsed α) : Prop := Ensures (fun _ => True) parsed

theorem returns_parsePort (value : List UInt8) : Returns (parsePort value) := by
  unfold parsePort
  split
  · trivial
  · exact ensures_rejected _

/-- An octet is stored below the end of the array: the index is checked first. -/
theorem returns_parseOctets (chunks : List (List UInt8)) (idx : ℕ)
    (octets : FixedBytes 4) : Returns (parseOctets chunks idx octets) := by
  induction chunks generalizing idx octets with
  | nil => trivial
  | cons chunk chunks ih =>
      rw [parseOctets]
      split
      · exact ensures_rejected _
      next hidx =>
        split
        · exact ensures_rejected _
        next octet _ =>
          have hfit : idx + [UInt8.ofNat octet].length ≤ 4 := by
            rw [List.length_singleton]
            omega
          obtain ⟨stored, hstored, -⟩ := @FixedBytes.write?_eq_some _ octets _ _ hfit
          rw [hstored]
          exact ih (idx + 1) stored

theorem returns_parseIpv4 (value : List UInt8) : Returns (parseIpv4 value) := by
  apply (returns_parseOctets _ _ _).bind
  intro counted _
  dsimp only
  split
  · exact ensures_rejected _
  · trivial

theorem ensures_parseStatic (cidr gateway dns : List UInt8) :
    Ensures (fun ipv4 => ipv4.prefixLen.toNat ≤ 32) (parseStatic cidr gateway dns) := by
  unfold parseStatic
  split
  · exact ensures_rejected _
  · split
    · exact ensures_rejected _
    next prefixLen _ =>
      split
      · exact ensures_rejected _
      next hprefix =>
        have hsmall : (UInt8.ofNat prefixLen).toNat ≤ 32 := by
          rw [UInt8.toNat_ofNat']
          omega
        exact (returns_parseIpv4 _).bind fun _ _ => (returns_parseIpv4 _).bind fun _ _ =>
          (returns_parseIpv4 _).bind fun _ _ => hsmall

/-! ## What a command carries -/

def SmallPrefix (command : Command) : Prop :=
  ∀ ipv4, command = .setStatic ipv4 → ipv4.prefixLen.toNat ≤ 32

theorem ensures_parseArguments (tokens : List (List UInt8)) :
    Ensures SmallPrefix (parseArguments tokens) := by
  unfold parseArguments
  split
  · split
    · exact (returns_parsePort _).bind fun _ _ _ h => Command.noConfusion h
    · exact ensures_rejected _
  · split
    · exact (returns_parseIpv4 _).bind fun _ _ =>
        (returns_parsePort _).bind fun _ _ _ h => Command.noConfusion h
    · exact ensures_rejected _
  · split
    · apply (ensures_parseStatic _ _ _).bind
      intro parsed hparsed ipv4 h
      exact Command.setStatic.inj h ▸ hparsed
    · exact ensures_rejected _
  · exact ensures_rejected _

theorem smallPrefix_fixedCommand {tokens : List (List UInt8)} {command : Command}
    (h : fixedCommand tokens = some command) : SmallPrefix command := by
  obtain ⟨entry, hfind, rfl⟩ := Option.map_eq_some_iff.mp h
  have hmem := List.mem_of_find?_eq_some hfind
  have hall : ∀ entry ∈ fixedCommands, SmallPrefix entry.2 := by
    simp [fixedCommands, SmallPrefix]
  exact hall entry hmem

theorem ensures_parseCommand {line : List UInt8}
    (hfew : (splitAsciiWhitespace line).length ≤ maxTokens) :
    Ensures SmallPrefix (parseCommand line) := by
  rw [parseCommand]
  dsimp only
  rw [if_neg (not_lt.mpr hfew)]
  split
  · exact ensures_rejected _
  · split
    next hfixed => exact smallPrefix_fixedCommand hfixed
    next => exact ensures_parseArguments _

theorem parseCommand_of_many {line : List UInt8}
    (hmany : maxTokens < (splitAsciiWhitespace line).length) :
    parseCommand line = .error .panicked := by
  rw [parseCommand]
  dsimp only
  rw [if_pos hmany]

theorem parseCommand_ne_panicked_iff {line : List UInt8} :
    parseCommand line ≠ .error .panicked ↔
      (splitAsciiWhitespace line).length ≤ maxTokens := by
  constructor
  · intro hreturns
    exact not_lt.mp fun hmany => hreturns (parseCommand_of_many hmany)
  · intro hfew
    exact (ensures_iff.mp (ensures_parseCommand hfew)).1

/-! ## Lines the parser survives -/

/-- The parser returns, and a static address it accepts has a prefix of at most
32 bits. -/
structure Survives (line : List UInt8) : Prop where
  returns : parseCommand line ≠ .error .panicked
  prefix_le : ∀ ipv4, parseCommand line = .ok (.setStatic ipv4) →
    ipv4.prefixLen.toNat ≤ 32

/-- A line is survived exactly when it has at most eight tokens. -/
theorem survives_iff (line : List UInt8) :
    Survives line ↔ (splitAsciiWhitespace line).length ≤ maxTokens := by
  constructor
  · intro h
    exact parseCommand_ne_panicked_iff.mp h.returns
  · intro hfew
    obtain ⟨hreturns, hsmall⟩ := ensures_iff.mp (ensures_parseCommand hfew)
    exact ⟨hreturns, fun ipv4 hstatic => hsmall _ hstatic ipv4 rfl⟩

/-- Nine letters and the spaces between them. -/
def nineTokens : List UInt8 := ascii "a b c d e f g h i"

theorem nine_tokens_panic :
    parseCommand nineTokens = .error .panicked ∧
      ¬∀ abort events line,
        readLineWithTimeout abort [] events = some (.ok .ready, line) → Survives line := by
  have hpanic : parseCommand nineTokens = .error .panicked := by decide +kernel
  have hline : ShellLine nineTokens := ⟨by decide, by decide⟩
  refine ⟨hpanic, fun hall => ?_⟩
  have hread := @readLine_typed true [] nineTokens hline
  exact (hall true (typed nineTokens) nineTokens hread).returns hpanic

/-! ## Runs the shell survives -/

namespace Shell

/-- The tokens of a line the running shell parses fit into the vector. -/
def TokensFit (s : Shell) (event : ShellEvent) : Prop :=
  ∀ line, event = .ready line → s.phase = .running →
    (splitAsciiWhitespace line).length ≤ maxTokens

theorem phase_runCommand {compiled : BridgeConfig} {s : Shell}
    (h : s.phase ≠ .halted) (command : Command) :
    (s.runCommand compiled command).phase ≠ .halted := by
  cases command with
  | start => exact fun hphase => ShellPhase.noConfusion hphase
  | help => exact h
  | «show» => exact h
  | reset => exact h
  | setDhcp => exact h
  | setAuto => exact h
  | setDiscovery enabled => exact h
  | setStatic ipv4 => exact h
  | setClient host port => exact h
  | setServer port => exact h
  | setUpstream mode => exact h

theorem phase_step_iff {compiled : BridgeConfig} {s : Shell} (h : s.phase ≠ .halted)
    (event : ShellEvent) :
    (s.step compiled event).phase ≠ .halted ↔ s.TokensFit event := by
  unfold step
  by_cases hrunning : s.phase = .running
  · rw [if_neg (not_not.mpr hrunning)]
    cases event with
    | ready line =>
        have htokens : s.TokensFit (.ready line) ↔
            parseCommand line ≠ .error .panicked := by
          rw [parseCommand_ne_panicked_iff]
          exact ⟨fun hfit => hfit line rfl hrunning,
            fun hfew other hother _ => ShellEvent.ready.inj hother ▸ hfew⟩
        rw [htokens]
        dsimp only
        split
        next command hparse =>
          rw [hparse]
          exact iff_of_true (phase_runCommand h command) (by simp)
        next err hparse =>
          rw [hparse]
          exact iff_of_true h (by simp)
        next hparse =>
          rw [hparse]
          exact iff_of_false (not_not.mpr rfl) (not_not.mpr rfl)
    | idle => exact iff_of_true h fun _ hready => ShellEvent.noConfusion hready
    | readError => exact iff_of_true h fun _ hready => ShellEvent.noConfusion hready
    | busyTraffic =>
        refine iff_of_true ?_ fun _ hready => ShellEvent.noConfusion hready
        dsimp only
        split
        · exact fun hphase => ShellPhase.noConfusion hphase
        · exact h
    | deadline =>
        exact iff_of_true (fun hphase => ShellPhase.noConfusion hphase)
          fun _ hready => ShellEvent.noConfusion hready
  · rw [if_pos hrunning]
    exact iff_of_true h fun _ _ hphase => absurd hphase hrunning

/-- The shell halts in no state of a run exactly when the tokens of every line
it parses fit. -/
theorem phase_run_iff {compiled initialConfig : BridgeConfig} (flash : Sector)
    (events : List ShellEvent) :
    (∀ front, front <+: events →
        (front.foldl (step compiled) (start initialConfig flash)).phase ≠ .halted) ↔
      Runs.AllSteps (step compiled) TokensFit (start initialConfig flash) events := by
  have hstart : (start initialConfig flash).phase ≠ .halted :=
    fun hphase => ShellPhase.noConfusion hphase
  have hstep : ∀ s event, s.phase ≠ .halted →
      ((step compiled s event).phase ≠ .halted ↔ TokensFit s event) :=
    fun _ event h => phase_step_iff h event
  exact (Runs.allSteps_iff hstep hstart events).symm

end Shell

end PicoFi
