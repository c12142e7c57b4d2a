import PicoFi.CommandLines

/-!
# The USB bridge

Bytes from the USB host go to TCP, except for local commands, which are
answered on the USB side.  A command is recognised late, so its bytes are held
back and replayed when they turn out to be data.  The replay has no carriage
returns, and that is the only difference to the data of the stream.
-/

namespace PicoFi
namespace Usb

open CommandLines

/-! ## Output -/

/-- A packet written to the host, or bytes written to the TCP socket. -/
inductive Output
  | packet (bytes : List UInt8)
  | socket (bytes : List UInt8)
  deriving DecidableEq

/-- What the bridge reads of its surroundings, given what it has written: the
texts of the commands and whether the next write succeeds. -/
structure Surroundings where
  config : BridgeConfig
  runtime : List Output → CommandRuntime
  succeeds : List Output → Output → Bool

def Surroundings.healthy (config : BridgeConfig) : Surroundings where
  config := config
  runtime := fun _ => .idle
  succeeds := fun _ _ => true

def forwarded (written : List Output) : List UInt8 :=
  written.flatMap fun
    | .packet _ => []
    | .socket bytes => bytes

theorem forwarded_append (front back : List Output) :
    forwarded (front ++ back) = forwarded front ++ forwarded back :=
  List.flatMap_append

@[simp] theorem forwarded_nil : forwarded [] = [] := rfl

@[simp] theorem forwarded_packet (bytes : List UInt8) :
    forwarded [.packet bytes] = [] := rfl

@[simp] theorem forwarded_socket (bytes : List UInt8) :
    forwarded [.socket bytes] = bytes := by
  simp [forwarded]

/-! ## Handling input -/

/-- `buf` is kept as the bytes of its ASCII characters. -/
structure LocalCommandState where
  atLineStart : Bool
  active : Bool
  buf : List UInt8
  deriving DecidableEq

def LocalCommandState.new : LocalCommandState where
  atLineStart := true
  active := false
  buf := []

abbrev commandBufSize : ℕ := 256
abbrev usbPacketSize : ℕ := 64

section

variable (env : Surroundings) (socket : Bool)

def write (written : List Output) (output : Output) : Option (List Output) :=
  if env.succeeds written output then some (written ++ [output]) else none

def usbPackets (bytes : List UInt8) : List Output :=
  (List.range ((bytes.length + 63) / usbPacketSize)).map fun i =>
    .packet ((bytes.drop (usbPacketSize * i)).take usbPacketSize)

def writeUsbPacket (written : List Output) (bytes : List UInt8) :
    Option (List Output) :=
  (usbPackets bytes).foldlM (write env) written

def writeUsbLine (written : List Output) (value : List UInt8) :
    Option (List Output) := do
  writeUsbPacket env (← writeUsbPacket env written value)
    [carriageReturn, lineFeed]

def handleLocalCommand (written : List Output) (line : List UInt8) :
    Option (List Output) :=
  if ¬StartsWithSlash line then some written
  else
    writeUsbLine env written
      (renderLocalBridgeCommand env.config (env.runtime written) line)

def forwardUsbBytes (written : List Output) (bytes : List UInt8) :
    Option (List Output) :=
  if socket ∧ bytes ≠ [] then write env written (.socket bytes)
  else some written

def flushCommandBytes (state : LocalCommandState) (written : List Output) :
    Option (LocalCommandState × List Output) :=
  if state.buf ≠ [] then do
    let written ← forwardUsbBytes env socket written state.buf
    return ({ state with buf := [], active := false }, written)
  else some ({ state with active := false }, written)

/-- The bytes held back turned out to be data, and so is this one. -/
def releaseCommand (state : LocalCommandState) (written : List Output)
    (byte : UInt8) : Option (LocalCommandState × List Output) := do
  let (state, written) ← flushCommandBytes env socket state written
  let written ← forwardUsbBytes env socket written [byte]
  return ({ state with atLineStart := false }, written)

/-- The loop body of `handle_usb_input`. -/
def handleUsbByte (s : LocalCommandState × List Output) (byte : UInt8) :
    Option (LocalCommandState × List Output) :=
  let (state, written) := s
  if state.active then
    if byte = carriageReturn then some s
    else if byte = lineFeed then do
      let written ← handleLocalCommand env written state.buf
      return ({ atLineStart := true, active := false, buf := [] }, written)
    else if Printable byte then
      if state.buf.length < commandBufSize then
        some ({ state with buf := state.buf ++ [byte] }, written)
      else releaseCommand env socket state written byte
    else releaseCommand env socket state written byte
  else if state.atLineStart ∧ byte = slash then
    some ({ state with active := true, buf := [slash] }, written)
  else do
    let written ← forwardUsbBytes env socket written [byte]
    return ({ state with
      atLineStart :=
        if byte = lineFeed then true
        else if byte ≠ carriageReturn then false
        else state.atLineStart }, written)

def handleUsbInput (s : LocalCommandState × List Output) (bytes : List UInt8) :
    Option (LocalCommandState × List Output) :=
  bytes.foldlM (handleUsbByte env socket) s

end

/-! ## A session -/

/-- Results of the two reads a session waits for; `none` is a read error. -/
inductive SessionInput
  | usb (packet : Option (List UInt8))
  | net (bytes : Option (List UInt8))
  deriving DecidableEq

/-- How `session` returns: `Ok` when the peer closes, `Err` otherwise. -/
inductive SessionEnd
  | closed
  | failed
  deriving DecidableEq

def sessionStep (env : Surroundings) (s : LocalCommandState × List Output) :
    SessionInput → Except SessionEnd (LocalCommandState × List Output)
  | .usb none => .error .failed
  | .usb (some bytes) =>
      if bytes = [] then .ok s
      else
        match handleUsbInput env true s bytes with
        | some s => .ok s
        | none => .error .failed
  | .net none => .error .failed
  | .net (some bytes) =>
      if bytes = [] then .error .closed
      else
        match writeUsbPacket env s.2 bytes with
        | some written => .ok (s.1, written)
        | none => .error .failed

def session (env : Surroundings) (inputs : List SessionInput) :
    Except SessionEnd (LocalCommandState × List Output) :=
  inputs.foldlM (sessionStep env) (LocalCommandState.new, [])

def SessionInput.Healthy : SessionInput → Prop
  | .usb packet => packet ≠ none
  | .net bytes => bytes ≠ none ∧ bytes ≠ some []

def usbBytes (inputs : List SessionInput) : List UInt8 :=
  inputs.flatMap fun
    | .usb packet => packet.getD []
    | .net _ => []

/-! ## The bridge cuts the stream -/

/-- What goes to the socket of a piece: a replay has no carriage returns. -/
def replayed : Piece → List UInt8
  | .plain b => [b]
  | .abandoned bytes => text bytes
  | .command _ | .unfinished _ => []

inductive Agrees : LocalCommandState → Scan → Prop
  | line {start : Bool} {buf : List UInt8} :
      Agrees ⟨start, false, buf⟩ (.line start)
  | candidate {start : Bool} {bytes : List UInt8} (hbytes : Candidate bytes) :
      Agrees ⟨start, true, text bytes⟩ (.candidate bytes)

section

variable {env : Surroundings}
variable (henv : ∀ written output, env.succeeds written output = true)
include henv

theorem write_eq (written : List Output) (output : Output) :
    write env written output = some (written ++ [output]) := by
  rw [write, if_pos (henv written output)]

theorem forwardUsbBytes_eq (written : List Output) (bytes : List UInt8) :
    ∃ written', forwardUsbBytes env true written bytes = some written' ∧
      forwarded written' = forwarded written ++ bytes := by
  by_cases hempty : bytes = []
  · refine ⟨written, ?_, ?_⟩
    · simp [forwardUsbBytes, hempty]
    · simp [hempty]
  · refine ⟨written ++ [.socket bytes], ?_, ?_⟩
    · simp [forwardUsbBytes, hempty, write_eq henv]
    · rw [forwarded_append, forwarded_socket]

theorem writePackets_eq {packets : List Output}
    (hpackets : ∀ o ∈ packets, ∃ bytes, o = .packet bytes)
    (written : List Output) :
    ∃ written', packets.foldlM (write env) written = some written' ∧
      forwarded written' = forwarded written := by
  induction packets generalizing written with
  | nil => exact ⟨written, rfl, rfl⟩
  | cons o packets ih =>
      obtain ⟨bytes, rfl⟩ := hpackets o (by simp)
      obtain ⟨written', hrest, hsame⟩ :=
        ih (fun o ho => hpackets o (by simp [ho])) (written ++ [.packet bytes])
      refine ⟨written', ?_, ?_⟩
      · rw [List.foldlM_cons, write_eq henv]
        exact hrest
      · rw [hsame, forwarded_append, forwarded_packet, List.append_nil]

theorem writeUsbPacket_eq (written : List Output) (bytes : List UInt8) :
    ∃ written', writeUsbPacket env written bytes = some written' ∧
      forwarded written' = forwarded written := by
  apply writePackets_eq henv
  intro o ho
  obtain ⟨i, -, rfl⟩ := List.mem_map.mp ho
  exact ⟨_, rfl⟩

theorem handleLocalCommand_eq (written : List Output) (line : List UInt8) :
    ∃ written', handleLocalCommand env written line = some written' ∧
      forwarded written' = forwarded written := by
  unfold handleLocalCommand
  split
  · exact ⟨written, rfl, rfl⟩
  · generalize renderLocalBridgeCommand env.config (env.runtime written) line =
      value
    obtain ⟨first, hfirst, hsame⟩ := writeUsbPacket_eq henv written value
    obtain ⟨second, hsecond, hsame'⟩ :=
      writeUsbPacket_eq henv first [carriageReturn, lineFeed]
    refine ⟨second, ?_, ?_⟩
    · simp [writeUsbLine, hfirst, hsecond]
    · rw [hsame', hsame]

/-- Held bytes are replayed as their text. -/
theorem releaseCommand_eq (state : LocalCommandState) (written : List Output)
    (b : UInt8) :
    ∃ written', releaseCommand env true state written b =
        some (⟨false, false, []⟩, written') ∧
      forwarded written' = forwarded written ++ state.buf ++ [b] := by
  by_cases hempty : state.buf = []
  · obtain ⟨last, hlast, hforwarded⟩ := forwardUsbBytes_eq henv written [b]
    refine ⟨last, ?_, ?_⟩
    · simp [releaseCommand, flushCommandBytes, hempty, hlast]
    · simp [hforwarded, hempty]
  · obtain ⟨held, hheld, hreplayed⟩ :=
      forwardUsbBytes_eq henv written state.buf
    obtain ⟨last, hlast, hforwarded⟩ := forwardUsbBytes_eq henv held [b]
    refine ⟨last, ?_, ?_⟩
    · simp [releaseCommand, flushCommandBytes, hempty, hheld, hlast]
    · rw [hforwarded, hreplayed]

/-- One byte takes the bridge where it takes the scan, and the socket gets
what the piece it completes replays. -/
theorem handleUsbByte_eq {state : LocalCommandState} {scan : Scan}
    (hagrees : Agrees state scan) (written : List Output) (b : UInt8) :
    ∃ state' written',
      handleUsbByte env true (state, written) b = some (state', written') ∧
      Agrees state' (scan.step b).1 ∧
      forwarded written' =
        forwarded written ++ (scan.step b).2.toList.flatMap replayed := by
  cases hagrees with
  | @line start buf =>
      by_cases hslash : start = true ∧ b = slash
      · refine ⟨⟨start, true, [slash]⟩, written, ?_, ?_, ?_⟩
        · simp [handleUsbByte, hslash]
        · rw [Scan.step, if_pos hslash]
          exact .candidate candidate_slash
        · rw [Scan.step, if_pos hslash]
          simp
      · obtain ⟨written', hwritten, hforwarded⟩ :=
          forwardUsbBytes_eq henv written [b]
        refine ⟨⟨nextStart start b, false, buf⟩, written', ?_, ?_, ?_⟩
        · simp [handleUsbByte, hslash, hwritten, nextStart]
        · rw [Scan.step, if_neg hslash]
          exact .line
        · rw [Scan.step, if_neg hslash]
          simpa [replayed] using hforwarded
  | @candidate start bytes hbytes =>
      by_cases hfeed : b = lineFeed
      · subst hfeed
        obtain ⟨written', hwritten, hforwarded⟩ :=
          handleLocalCommand_eq henv written (text bytes)
        refine ⟨⟨true, false, []⟩, written', ?_, ?_, ?_⟩
        · have hreturn : lineFeed ≠ carriageReturn := by decide
          simp [handleUsbByte, hreturn, hwritten]
        · rw [Scan.step, if_pos rfl]
          exact .line
        · rw [Scan.step, if_pos rfl]
          simpa [replayed] using hforwarded
      · by_cases hcontinues : Continues bytes b
        · have hlonger := (hbytes.concat_iff b).mpr hcontinues
          refine ⟨⟨start, true, text (bytes ++ [b])⟩, written, ?_, ?_, ?_⟩
          · rcases hcontinues with rfl | ⟨hprintable, hroom⟩
            · simp [handleUsbByte]
            · have hreturn : b ≠ carriageReturn := by
                rintro rfl
                exact absurd hprintable (by decide)
              rw [text_concat _ hreturn]
              simp [handleUsbByte, hfeed, hreturn, hprintable, hroom]
          · rw [Scan.step, if_neg hfeed, if_pos hcontinues]
            exact .candidate hlonger
          · rw [Scan.step, if_neg hfeed, if_pos hcontinues]
            simp
        · obtain ⟨hreturn, hfull⟩ := not_or.mp hcontinues
          obtain ⟨written', hreleased, hforwarded⟩ :=
            releaseCommand_eq henv ⟨start, true, text bytes⟩ written b
          refine ⟨⟨false, false, []⟩, written', ?_, ?_, ?_⟩
          · by_cases hprintable : Printable b
            · have hlong : ¬(text bytes).length < 256 := fun h =>
                hfull ⟨hprintable, h⟩
              simp [handleUsbByte, hfeed, hreturn, hprintable, hlong, hreleased]
            · simp [handleUsbByte, hfeed, hreturn, hprintable, hreleased]
          · rw [Scan.step, if_neg hfeed, if_neg hcontinues]
            exact .line
          · rw [Scan.step, if_neg hfeed, if_neg hcontinues, hforwarded,
              List.append_assoc]
            simp [replayed, text_concat _ hreturn]

theorem handleUsbInput_eq {state : LocalCommandState} {scan : Scan}
    (hagrees : Agrees state scan) (written : List Output) (bytes : List UInt8) :
    ∃ state' written' scan',
      handleUsbInput env true (state, written) bytes = some (state', written') ∧
      Agrees state' scan' ∧
      ∀ rest, forwarded written ++
          (pieces scan (bytes ++ rest)).flatMap replayed =
        forwarded written' ++ (pieces scan' rest).flatMap replayed := by
  induction bytes generalizing state scan written with
  | nil => exact ⟨state, written, scan, rfl, hagrees, fun rest => rfl⟩
  | cons b bytes ih =>
      obtain ⟨state₁, written₁, hbyte, hagrees₁, hforwarded⟩ :=
        handleUsbByte_eq henv hagrees written b
      obtain ⟨state₂, written₂, scan₂, hrest, hagrees₂, hpieces⟩ :=
        ih hagrees₁ written₁
      refine ⟨state₂, written₂, scan₂, ?_, hagrees₂, ?_⟩
      · rw [handleUsbInput, List.foldlM_cons, hbyte]
        exact hrest
      · intro rest
        rw [← hpieces rest, hforwarded, List.cons_append, pieces_cons,
          List.flatMap_append, List.append_assoc]

/-- Packets and bytes from the network in any order: the socket has got what
the pieces replay. -/
theorem session_eq {inputs : List SessionInput}
    (hinputs : ∀ input ∈ inputs, input.Healthy) {state : LocalCommandState}
    {scan : Scan} (hagrees : Agrees state scan) (written : List Output) :
    ∃ s, inputs.foldlM (sessionStep env) (state, written) = .ok s ∧
      forwarded s.2 = forwarded written ++
        (pieces scan (usbBytes inputs)).flatMap replayed := by
  induction inputs generalizing state scan written with
  | nil =>
      refine ⟨(state, written), rfl, ?_⟩
      cases scan <;> simp [usbBytes, pieces, replayed]
  | cons input inputs ih =>
      have hrest := fun i hi => hinputs i (List.mem_cons_of_mem input hi)
      have hhealthy := hinputs input (by simp)
      cases input with
      | usb packet =>
          cases packet with
          | none => exact absurd rfl hhealthy
          | some bytes =>
              by_cases hempty : bytes = []
              · subst hempty
                obtain ⟨s, hs, hforwarded⟩ := ih hrest hagrees written
                refine ⟨s, ?_, hforwarded⟩
                rw [List.foldlM_cons, sessionStep, if_pos rfl]
                exact hs
              · obtain ⟨state', written', scan', hhandled, hagrees', hpieces⟩ :=
                  handleUsbInput_eq henv hagrees written bytes
                obtain ⟨s, hs, hforwarded⟩ := ih hrest hagrees' written'
                refine ⟨s, ?_, ?_⟩
                · rw [List.foldlM_cons, sessionStep, if_neg hempty, hhandled]
                  exact hs
                · rw [hforwarded, ← hpieces]
                  rfl
      | net bytes =>
          cases bytes with
          | none => exact absurd rfl hhealthy.1
          | some bytes =>
              have hopen : bytes ≠ [] := fun h => hhealthy.2 (congrArg some h)
              obtain ⟨written', hwritten, hsame⟩ :=
                writeUsbPacket_eq henv written bytes
              obtain ⟨s, hs, hforwarded⟩ := ih hrest hagrees written'
              refine ⟨s, ?_, ?_⟩
              · rw [List.foldlM_cons, sessionStep, if_neg hopen, hwritten]
                exact hs
              · rw [hforwarded, hsame]
                rfl

end

/-! ## What the replay loses -/

theorem replayed_sublist (p : Piece) : List.Sublist (replayed p) p.data := by
  cases p with
  | abandoned bytes => exact List.filter_sublist
  | _ => exact List.Sublist.refl _

/-- Nothing is lost of the whole exactly when nothing is lost of a part. -/
theorem flatMap_eq_flatMap_iff {α β : Type*} {f g : α → List β}
    (hsub : ∀ a, List.Sublist (f a) (g a)) (l : List α) :
    l.flatMap f = l.flatMap g ↔ ∀ a ∈ l, f a = g a := by
  induction l with
  | nil => simp
  | cons a l ih =>
      rw [List.flatMap_cons, List.flatMap_cons, List.forall_mem_cons, ← ih]
      constructor
      · intro heq
        have hlength := congrArg List.length heq
        have hhead := (hsub a).length_le
        have hrest := List.Sublist.flatMap_right l fun a _ => hsub a
        have hshorter := hrest.length_le
        simp only [List.length_append] at hlength
        exact ⟨(hsub a).eq_of_length (by omega), hrest.eq_of_length (by omega)⟩
      · rintro ⟨hhead, hrest⟩
        rw [hhead, hrest]

theorem replayed_eq_data_iff (ps : List Piece) :
    ps.flatMap replayed = ps.flatMap Piece.data ↔
      ∀ bytes, .abandoned bytes ∈ ps → carriageReturn ∉ bytes := by
  rw [flatMap_eq_flatMap_iff replayed_sublist]
  constructor
  · intro hall bytes hmem
    exact (text_eq_self_iff bytes).mp (hall _ hmem)
  · intro hnone p hp
    cases p with
    | abandoned bytes => exact (text_eq_self_iff bytes).mpr (hnone bytes hp)
    | _ => rfl

/-- In a session without an I/O error the socket gets the data of the stream,
complete commands and an unfinished one taken out, exactly when no candidate
that turned out to be data held a carriage return. -/
theorem session_forwards_data_iff (env : Surroundings)
    (henv : ∀ written output, env.succeeds written output = true)
    (inputs : List SessionInput)
    (hinputs : ∀ input ∈ inputs, input.Healthy) :
    ∃ s ps, session env inputs = .ok s ∧ Cuts true (usbBytes inputs) ps ∧
      (forwarded s.2 = ps.flatMap Piece.data ↔
        ∀ bytes, .abandoned bytes ∈ ps → carriageReturn ∉ bytes) := by
  obtain ⟨s, hs, hforwarded⟩ := session_eq henv hinputs
    (.line : Agrees LocalCommandState.new (.line true)) []
  refine ⟨s, _, hs, cuts_iff.mpr rfl, ?_⟩
  rw [hforwarded, forwarded_nil, List.nil_append]
  exact replayed_eq_data_iff _

theorem session_forwards_data_iff_ping :
    ∃ s ps, session (.healthy .spiServer) [.usb (some [47, 112]),
        .net (some [1]), .usb (some [10, 65, 13, 10])] = .ok s ∧
      Cuts true [47, 112, 10, 65, 13, 10] ps ∧
      (forwarded s.2 = ps.flatMap Piece.data ↔
        ∀ bytes, .abandoned bytes ∈ ps → carriageReturn ∉ bytes) := by
  apply session_forwards_data_iff
  · intro written output
    rfl
  · simp [SessionInput.Healthy]

/-- A slash, a carriage return and a zero byte are data, and the carriage
return is lost. -/
theorem session_loses_carriageReturn :
    ∃ s ps, session (.healthy .spiServer) [.usb (some [47, 13, 0])] = .ok s ∧
      Cuts true (usbBytes [.usb (some [47, 13, 0])]) ps ∧
      forwarded s.2 ≠ ps.flatMap Piece.data :=
  ⟨_, _, rfl, cuts_iff.mpr rfl, by decide⟩

end Usb
end PicoFi
