import PicoFi.PacketArmor
import PicoFi.StepRuns
import PicoFi.TextFrames

/-!
# The router on the UART host

`UartRouterAdapter` writes a frame for each call and reads one frame back.  A
read takes what the line has until its time is over, and never looks for the
beginning of a frame.  So a call that is cut off within a frame leaves the next
one inside it.  Where the line carries text the adapter still returns nothing
but whole packets; it finds the next frame again when the cut was at a multiple
of four, and never when it was not.
-/

namespace PicoFi
namespace Uart

open Buffer LinkFrame TextFrames

/-! ## Frames -/

abbrev frameLimit : ℕ := 4096

def buildFrame (payload : List UInt8) (magic : UInt8) : List UInt8 :=
  framed (magic, if magic = reqCommandMagic then respCommandMagic else respDataMagic)
    (payload.take frameLimit)

def magicOf (first second : UInt8) : Option UInt8 :=
  if (first, second) = (reqDataMagic, respDataMagic) then some respDataMagic
  else if (first, second) = (reqCommandMagic, respCommandMagic) then some respCommandMagic
  else none

def parseFrame : List UInt8 → UInt8 × ℕ × List UInt8
  | first :: second :: low :: high :: rest =>
      match magicOf first second with
      | none => (0, 0, [])
      | some magic =>
          let length := u16le low high
          if frameLimit < length ∨ rest.length < length then (0, 0, [])
          else (magic, length, rest.take length)
  | _ => (0, 0, [])

/-- `_capture` -/
def capture (frame : List UInt8) : Option (List UInt8) :=
  if frame.length < frameHeaderSize then none
  else
    let (magic, _, payload) := parseFrame frame
    if magic = respDataMagic ∧ payload ≠ [] then some payload else none

/-! ## `read_frame` -/

/-- Which `read_exact` the call is in, and what it has read so far. -/
inductive FrameRead
  | header (buf : List UInt8)
  | payload (head : List UInt8) (length : ℕ) (buf : List UInt8)

inductive ReadStatus
  | reading (read : FrameRead)
  | returned (frame : List UInt8)

namespace FrameRead

def bytes : FrameRead → List UInt8
  | .header buf => buf
  | .payload head _ buf => head ++ buf

/-- What the next `ser.read` asks for. -/
def missing : FrameRead → ℕ
  | .header buf => frameHeaderSize - buf.length
  | .payload _ length buf => length - buf.length

def push : FrameRead → List UInt8 → ReadStatus
  | .header buf, chunk =>
      let head := buf ++ chunk
      if head.length < frameHeaderSize then .reading (.header head)
      else
        let length := u16le (head.getD 2 0) (head.getD 3 0)
        if frameLimit < length ∨ length = 0 then .returned head
        else .reading (.payload head length [])
  | .payload head length buf, chunk =>
      let buf := buf ++ chunk
      if buf.length < length then .reading (.payload head length buf)
      else .returned (head ++ buf)

end FrameRead

/-! ## The adapter -/

inductive RouterPhase
  | idle
  | reading (sending : Bool) (deadline : ℕ) (read : FrameRead)

def RouterPhase.bytes : RouterPhase → List UInt8
  | .idle => []
  | .reading _ _ read => read.bytes

structure RouterRun where
  phase : RouterPhase
  pending : List (List UInt8)
  returned : List (List UInt8)
  sent : List (List UInt8)
  wrote : List UInt8
  /-- What the calls before this one have read. -/
  before : List UInt8
  /-- Where calls were cut off, with a part of a frame. -/
  torn : List ℕ

inductive RouterEvent
  | sendPayload (now : ℕ) (payload : List UInt8)
  | recvPayload (now timeout : ℕ)
  /-- `ser.read` returns these bytes. -/
  | read (now : ℕ) (chunk : List UInt8)
  /-- The loop of `read_exact` finds its time over. -/
  | late (now : ℕ)

/-- `send_reply_wait_s` and `minimum_poll_s`, in milliseconds. -/
abbrev sendReplyWait : ℕ := 5
abbrev minimumPoll : ℕ := 2

namespace RouterRun

def start : RouterRun := ⟨.idle, [], [], [], [], [], []⟩

def heard (r : RouterRun) : List UInt8 := r.before ++ r.phase.bytes

/-- What the router has got for its network. -/
def kept (r : RouterRun) : List (List UInt8) := r.returned ++ r.pending

/-- `read_frame` returns. -/
def afterRead (r : RouterRun) (sending : Bool) (frame : List UInt8) : RouterRun :=
  let captured := (capture frame).toList
  { r with
    phase := .idle
    before := r.before ++ frame
    pending := if sending then r.pending ++ captured else r.pending
    returned := if sending then r.returned else r.returned ++ captured }

def step (r : RouterRun) : RouterEvent → Option RouterRun
  | .sendPayload now payload =>
      match r.phase with
      | .idle =>
          if payload.length ≤ frameLimit then
            some { r with
              phase := .reading true (now + sendReplyWait) (.header [])
              sent := r.sent ++ [payload]
              wrote := r.wrote ++ buildFrame payload reqDataMagic }
          else none
      | _ => none
  | .recvPayload now timeout =>
      match r.phase, r.pending with
      | .idle, payload :: rest =>
          some { r with pending := rest, returned := r.returned ++ [payload] }
      | .idle, [] =>
          some { r with
            phase := .reading false (now + max timeout minimumPoll) (.header [])
            wrote := r.wrote ++ buildFrame [] reqDataMagic }
      | _, _ => none
  | .read now chunk =>
      match r.phase with
      | .reading sending deadline read =>
          if now < deadline ∧ chunk.length ≤ read.missing then
            match read.push chunk with
            | .reading read => some { r with phase := .reading sending deadline read }
            | .returned frame => some (r.afterRead sending frame)
          else none
      | _ => none
  | .late now =>
      match r.phase with
      | .reading sending deadline read =>
          if deadline ≤ now then
            let torn := if read.bytes = [] then [] else [r.heard.length]
            some { r.afterRead sending read.bytes with torn := r.torn ++ torn }
          else none
      | _ => none

end RouterRun

/-! ## Whole frames -/

/-- What `read_frame` returns in time. -/
def Whole (frame : List UInt8) : Prop :=
  ∃ a b low high rest, frame = a :: b :: low :: high :: rest ∧
    (frameLimit < u16le low high ∧ rest = [] ∨
      u16le low high ≤ frameLimit ∧ rest.length = u16le low high)

def FrameRead.Open : FrameRead → Prop
  | .header buf => buf.length < 4
  | .payload head length buf => ∃ a b low high, head = [a, b, low, high] ∧
      length = u16le low high ∧ length ≤ frameLimit ∧ buf.length < length

inductive Pushed (bytes : List UInt8) : ReadStatus → Prop
  | reading {read : FrameRead} (hopen : read.Open) (hbytes : read.bytes = bytes) :
      Pushed bytes (.reading read)
  | returned (hwhole : Whole bytes) : Pushed bytes (.returned bytes)

theorem FrameRead.pushed {read : FrameRead} (hopen : read.Open) {chunk : List UInt8}
    (hlen : chunk.length ≤ read.missing) : Pushed (read.bytes ++ chunk) (read.push chunk) := by
  cases read with
  | header buf =>
      simp only [Open] at hopen
      simp only [missing, frameHeaderSize] at hlen
      have hle : (buf ++ chunk).length ≤ 4 := by
        rw [List.length_append]
        omega
      simp only [push, bytes]
      split
      next hshort => exact .reading hshort rfl
      next hfull =>
        match hheader : buf ++ chunk with
        | [a, b, low, high] =>
            simp only [List.getD_cons_succ, List.getD_cons_zero]
            split
            next hreturned =>
              refine .returned ⟨a, b, low, high, [], rfl, ?_⟩
              rcases hreturned with hlong | hzero
              · exact .inl ⟨hlong, rfl⟩
              · exact .inr ⟨by omega, hzero.symm⟩
            next hmore =>
              obtain ⟨hfits, hpos⟩ := not_or.mp hmore
              exact .reading ⟨a, b, low, high, rfl, rfl, Nat.not_lt.mp hfits,
                Nat.pos_of_ne_zero hpos⟩ (by simp [bytes])
        | [] | [_] | [_, _] | [_, _, _] =>
            simp only [hheader, List.length_cons, List.length_nil, frameHeaderSize] at hfull
            omega
        | _ :: _ :: _ :: _ :: _ :: _ =>
            simp only [hheader, List.length_cons] at hle
            omega
  | payload head length buf =>
      obtain ⟨a, b, low, high, rfl, rfl, hfits, hlt⟩ := hopen
      simp only [missing] at hlen
      simp only [push, bytes, List.append_assoc]
      split
      next hmore => exact .reading ⟨a, b, low, high, rfl, rfl, hfits, hmore⟩ rfl
      next hfull =>
        refine .returned ⟨a, b, low, high, buf ++ chunk, rfl, .inr ⟨hfits, ?_⟩⟩
        rw [List.length_append] at hfull ⊢
        omega

/-- A call that is cut off captures nothing. -/
theorem FrameRead.capture_bytes {read : FrameRead} (hopen : read.Open) :
    capture read.bytes = none := by
  cases read with
  | header buf => exact if_pos hopen
  | payload head length buf =>
      obtain ⟨a, b, low, high, rfl, rfl, -, hlt⟩ := hopen
      have hparse : parseFrame (a :: b :: low :: high :: buf) = (0, 0, []) := by
        simp only [parseFrame]
        split
        · rfl
        · exact if_pos (.inr hlt)
      simp [capture, bytes, hparse]

theorem capture_dataFrame {payload : List UInt8} (hlen : payload.length ≤ frameLimit) :
    capture (dataFrame payload) = if payload = [] then none else some payload := by
  have hlength : u16le (UInt8.ofNat payload.length) (UInt8.ofNat (payload.length / 256)) =
      payload.length := u16le_ofNat (lt_of_le_of_lt hlen (by decide))
  have hmagic : magicOf reqDataMagic respDataMagic = some respDataMagic := by decide
  have hparse : parseFrame (dataFrame payload) =
      (respDataMagic, payload.length, payload) := by
    rw [dataFrame_eq]
    simp [parseFrame, hmagic, hlength, Nat.not_lt.mpr hlen]
  have hlong : ¬(dataFrame payload).length < frameHeaderSize := by
    rw [length_dataFrame]
    exact Nat.not_lt.mpr (Nat.le_add_right 4 _)
  rw [capture, if_neg hlong, hparse]
  by_cases hnil : payload = [] <;> simp [hnil]

theorem head_of_parseFrame {frame : List UInt8} (hparse : (parseFrame frame).1 = respDataMagic) :
    ∃ rest, frame = reqDataMagic :: rest := by
  unfold parseFrame at hparse
  split at hparse
  next first second low high rest =>
    split at hparse
    next => exact absurd hparse (by decide)
    next magic hmagic =>
      have hdata : magic = respDataMagic := by
        dsimp only at hparse
        split at hparse
        · exact absurd hparse (by decide)
        · exact hparse
      rw [hdata, magicOf] at hmagic
      split at hmagic
      next hpair =>
        cases hpair
        exact ⟨_, rfl⟩
      next =>
        have hcommand := (Option.ite_none_right_eq_some.mp hmagic).2
        exact absurd (Option.some.inj hcommand) (by decide)
  next => exact absurd hparse (by decide)

theorem head_of_capture {frame payload : List UInt8} (hcapture : capture frame = some payload) :
    ∃ rest, frame = reqDataMagic :: rest := by
  unfold capture at hcapture
  split at hcapture
  next => cases hcapture
  next => exact head_of_parseFrame (Option.ite_none_right_eq_some.mp hcapture).1.1

/-! ## What a step does -/

structure Opened (r : RouterRun) : Prop where
  reading : ∀ sending deadline read, r.phase = .reading sending deadline read → read.Open
  alone : ∀ deadline read, r.phase = .reading false deadline read → r.pending = []

inductive Effect (r t : RouterRun) : Prop
  /-- A call begins, returns what is pending, reads a part of a frame or is cut
  off in front of one. -/
  | quiet (hbefore : t.before = r.before) (hkept : t.kept = r.kept) (htorn : t.torn = r.torn)
  | whole (frame : List UInt8) (hwhole : Whole frame) (hbefore : t.before = r.before ++ frame)
      (hkept : t.kept = r.kept ++ (capture frame).toList) (htorn : t.torn = r.torn)
  /-- A call is cut off within a frame. -/
  | cut (read : FrameRead) (hopen : read.Open) (hbytes : read.bytes ≠ [])
      (hbefore : t.before = r.before ++ read.bytes) (hkept : t.kept = r.kept)
      (htorn : t.torn = r.torn ++ [t.before.length])

section Steps

variable {r t : RouterRun} {e : RouterEvent}

theorem kept_afterRead {sending : Bool} {deadline : ℕ} {read : FrameRead} (hr : Opened r)
    (hphase : r.phase = .reading sending deadline read) (frame : List UInt8) :
    (r.afterRead sending frame).kept = r.kept ++ (capture frame).toList := by
  cases sending with
  | true => simp [RouterRun.kept, RouterRun.afterRead]
  | false =>
      have hnone := hr.alone deadline read hphase
      simp [RouterRun.kept, RouterRun.afterRead, hnone]

theorem opened_of_idle (hphase : t.phase = .idle) : Opened t where
  reading sending deadline read h := by
    rw [hphase] at h
    cases h
  alone deadline read h := by
    rw [hphase] at h
    cases h

theorem opened_of_header {sending : Bool} {deadline : ℕ}
    (hphase : t.phase = .reading sending deadline (.header []))
    (halone : sending = false → t.pending = []) : Opened t where
  reading sending deadline read h := by
    rw [hphase] at h
    cases h
    exact Nat.zero_lt_succ 3
  alone deadline read h := by
    rw [hphase] at h
    cases h
    exact halone rfl

/-- What a step of the adapter does to what it has read and kept. -/
theorem step_effect (hr : Opened r) (hstep : r.step e = some t) : Opened t ∧ Effect r t := by
  cases e with
  | sendPayload now payload =>
      simp only [RouterRun.step] at hstep
      split at hstep
      next =>
        obtain ⟨-, hnext⟩ := Option.ite_none_right_eq_some.mp hstep
        cases hnext
        exact ⟨opened_of_header rfl (by simp), .quiet rfl rfl rfl⟩
      next => cases hstep
  | recvPayload now timeout =>
      simp only [RouterRun.step] at hstep
      split at hstep
      next payload rest hphase hpending =>
        cases hstep
        exact ⟨opened_of_idle hphase, .quiet rfl (by simp [RouterRun.kept, hpending]) rfl⟩
      next hphase hpending =>
        cases hstep
        exact ⟨opened_of_header rfl fun _ => hpending, .quiet rfl rfl rfl⟩
      next => cases hstep
  | read now chunk =>
      simp only [RouterRun.step] at hstep
      split at hstep
      next sending deadline read hphase =>
        obtain ⟨⟨-, hlen⟩, hnext⟩ := Option.ite_none_right_eq_some.mp hstep
        have hpushed := FrameRead.pushed (hr.reading _ _ _ hphase) hlen
        split at hnext
        next next hpush =>
          rw [hpush] at hpushed
          cases hpushed with
          | reading hopen _ =>
              cases hnext
              refine ⟨⟨fun _ _ _ h => ?_, fun _ _ h => ?_⟩, .quiet rfl rfl rfl⟩
              · cases h
                exact hopen
              · cases h
                exact hr.alone _ _ hphase
        next frame hpush =>
          rw [hpush] at hpushed
          cases hpushed with
          | returned hwhole =>
              cases hnext
              exact ⟨opened_of_idle rfl,
                .whole _ hwhole rfl (kept_afterRead hr hphase _) rfl⟩
      next => cases hstep
  | late now =>
      simp only [RouterRun.step] at hstep
      split at hstep
      next sending deadline read hphase =>
        obtain ⟨-, hnext⟩ := Option.ite_none_right_eq_some.mp hstep
        cases hnext
        have hopen := hr.reading _ _ _ hphase
        have hkept := kept_afterRead hr hphase read.bytes
        rw [FrameRead.capture_bytes hopen, Option.toList_none, List.append_nil] at hkept
        refine ⟨opened_of_idle rfl, ?_⟩
        by_cases hbytes : read.bytes = []
        · exact .quiet (by simp [RouterRun.afterRead, hbytes]) hkept (by simp [hbytes])
        · refine .cut read hopen hbytes rfl hkept ?_
          simp [RouterRun.heard, RouterRun.afterRead, hphase, RouterPhase.bytes, hbytes]
      next => cases hstep

theorem Effect.before_prefix (heffect : Effect r t) :
    r.before <+: t.before := by
  cases heffect with
  | quiet hbefore => rw [hbefore]
  | whole frame _ hbefore => exact ⟨frame, hbefore.symm⟩
  | cut read _ _ hbefore => exact ⟨read.bytes, hbefore.symm⟩

theorem Effect.torn_prefix (heffect : Effect r t) : r.torn <+: t.torn := by
  cases heffect with
  | quiet _ _ htorn => rw [htorn]
  | whole _ _ _ _ htorn => rw [htorn]
  | cut _ _ _ _ _ htorn => exact ⟨_, htorn.symm⟩

end Steps

/-! ## Nothing but packets -/

def packets (payloads : List (List UInt8)) : List (List UInt8) :=
  payloads.filter fun payload => payload ≠ []

@[simp] theorem packets_append (front back : List (List UInt8)) :
    packets (front ++ back) = packets front ++ packets back :=
  List.filter_append _ _

theorem capture_toList {payload : List UInt8} (hlen : payload.length ≤ frameLimit) :
    (capture (dataFrame payload)).toList = packets [payload] := by
  rw [capture_dataFrame hlen]
  by_cases hnil : payload = [] <;> simp [packets, hnil]

theorem length_packets_le (payload : List UInt8) : (packets [payload]).length ≤ 1 :=
  List.length_filter_le _ _

section Line

variable {payloads : List (List UInt8)} {before frame : List UInt8}

/-- A whole frame that begins where a frame does is that one. -/
theorem Whole.eq_dataFrame {payload rest : List UInt8} (hwhole : Whole frame)
    (hlen : payload.length ≤ frameLimit) (hline : frame <+: dataFrame payload ++ rest) :
    frame = dataFrame payload := by
  obtain ⟨a, b, low, high, back, rfl, hlength⟩ := hwhole
  have hvalue : u16le (UInt8.ofNat payload.length) (UInt8.ofNat (payload.length / 256)) =
      payload.length := u16le_ofNat (lt_of_le_of_lt hlen (by decide))
  have hframe := hline
  rw [dataFrame_eq, List.cons_append, List.cons_append, List.cons_append, List.cons_append]
    at hframe
  simp only [List.cons_prefix_cons] at hframe
  obtain ⟨-, -, rfl, rfl, -⟩ := hframe
  rw [hvalue] at hlength
  have hsame : (a :: b :: UInt8.ofNat payload.length ::
      UInt8.ofNat (payload.length / 256) :: back).length = (dataFrame payload).length := by
    rw [length_dataFrame]
    simp only [List.length_cons]
    omega
  exact (List.prefix_of_prefix_length_le hline (List.prefix_append _ _) hsame.le).eq_of_length
    hsame

/-- What stands on the line behind its first bytes. -/
theorem drop_line (hline : before ++ frame <+: dataFrames payloads) :
    frame <+: (dataFrames payloads).drop before.length := by
  obtain ⟨rest, hrest⟩ := hline
  rw [← hrest, List.append_assoc, List.drop_left]
  exact List.prefix_append _ _

theorem frame_of_drop {done later : List (List UInt8)} {payload : List UInt8}
    (hline : before ++ frame <+: dataFrames (done ++ payload :: later))
    (hbefore : before.length = (dataFrames done).length) :
    before = dataFrames done ∧ frame <+: dataFrame payload ++ dataFrames later := by
  rw [dataFrames_append, dataFrames_cons] at hline
  have hfront : before <+: dataFrames done := List.prefix_of_prefix_length_le
    ((List.prefix_append _ _).trans hline) (List.prefix_append _ _) hbefore.le
  obtain rfl := hfront.eq_of_length hbefore
  exact ⟨rfl, (List.prefix_append_right_inj _).mp hline⟩

/-- Only a frame of the line is captured, wherever the call began. -/
theorem exists_done_of_capture (htext : ∀ payload ∈ payloads, TextPayload payload)
    (hwhole : Whole frame) (hline : before ++ frame <+: dataFrames payloads)
    {payload : List UInt8} (hcapture : capture frame = some payload) :
    ∃ done later, payloads = done ++ payload :: later ∧ before = dataFrames done ∧
      frame = dataFrame payload ∧ packets [payload] = [payload] := by
  obtain ⟨rest, hhead⟩ := head_of_capture hcapture
  have hget : (dataFrames payloads)[before.length]? = some reqDataMagic := by
    obtain ⟨more, hmore⟩ := drop_line hline
    have hfirst := congrArg List.head? hmore
    rw [hhead, List.cons_append, List.head?_cons, List.head?_drop] at hfirst
    exact hfirst.symm
  obtain ⟨done, other, later, rfl, hdone⟩ :=
    exists_frame_of_starts htext hget ⟨_, List.mem_cons_self, rfl⟩
  obtain ⟨hbefore, hframe⟩ := frame_of_drop hline hdone
  have hlen := (htext other (by simp)).length_le
  have hsame := hwhole.eq_dataFrame hlen hframe
  have hcaptured := capture_toList hlen
  rw [← hsame, hcapture, Option.toList_some] at hcaptured
  have hpayload : payload = other := by
    have hmem : payload ∈ packets [other] := by simp [← hcaptured]
    exact List.mem_singleton.mp (List.mem_of_mem_filter hmem)
  subst hpayload
  exact ⟨done, later, rfl, hbefore, hsame, hcaptured.symm⟩

end Line

/-- What is kept are packets of the frames that have passed. -/
def KeepsPackets (r : RouterRun) : Prop :=
  ∀ payloads, (∀ payload ∈ payloads, TextPayload payload) → r.before <+: dataFrames payloads →
    ∃ done, done <+: payloads ∧ (dataFrames done).length ≤ r.before.length ∧
      List.Sublist r.kept (packets done)

theorem KeepsPackets.afterStep {r t : RouterRun} (hkeeps : KeepsPackets r)
    (heffect : Effect r t) : KeepsPackets t := by
  intro payloads htext hline
  have hearlier := heffect.before_prefix
  obtain ⟨done, hdone, hle, hsub⟩ := hkeeps payloads htext (hearlier.trans hline)
  have hpassed := hle.trans hearlier.length_le
  cases heffect with
  | quiet _ hkept => exact ⟨done, hdone, hpassed, hkept ▸ hsub⟩
  | cut _ _ _ _ hkept => exact ⟨done, hdone, hpassed, hkept ▸ hsub⟩
  | whole frame hwhole hbefore hkept =>
      cases hcapture : capture frame with
      | none =>
          rw [hcapture, Option.toList_none, List.append_nil] at hkept
          exact ⟨done, hdone, hpassed, hkept ▸ hsub⟩
      | some payload =>
          rw [hbefore] at hline
          obtain ⟨first, later, rfl, hfirst, hframe, hpacket⟩ :=
            exists_done_of_capture htext hwhole hline hcapture
          have hdone : done <+: first := prefix_of_length_le hdone (List.prefix_append _ _)
            (hfirst ▸ hle)
          refine ⟨first ++ [payload], by simp, ?_, ?_⟩
          · rw [hbefore, hfirst, hframe, dataFrames_append]
            simp
          · rw [hkept, hcapture, packets_append, hpacket]
            exact (hsub.trans (hdone.filter _).sublist).append (List.Sublist.refl _)

end Uart
end PicoFi
