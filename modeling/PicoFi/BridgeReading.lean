import PicoFi.BridgeFrame
import PicoFi.FrameReaderSchedule

/-!
# Reading bridge frames from a socket

A poll of `read_bridge_frame` parks, returns a frame or returns an error.
Whatever sizes the reads have and wherever calls are dropped, the frames it
returns are the complete frames of the bytes the socket delivered.
-/

namespace PicoFi
namespace BridgeFrame

open Buffer LinkFrame PicoFi.Stream

def completeFrames (cap : ℕ) (bytes : List UInt8) : List (List UInt8) :=
  (Partial.empty.decode bridgeMagic false cap
    (bytes.map .byte)).2.filterMap okPayload

/-- The reader after these bytes, none of which was an error. -/
structure HasRead (cap : ℕ) (bytes : List UInt8) (bufs : ReadBuffers)
    (p : Partial) : Prop where
  decode_eq : ∃ results,
    Partial.empty.decode bridgeMagic false cap (bytes.map .byte) = (p, results) ∧
      .err ∉ results
  tracks : Tracks bridgeMagic false cap bufs p

/-- What a poll makes of more bytes. -/
inductive Polled (cap : ℕ) (bytes : List UInt8) (before : List (List UInt8)) :
    ReadBuffers × CallStatus → Prop
  | parked {bufs : ReadBuffers} {p : Partial} (hread : HasRead cap bytes bufs p)
      (hframes : completeFrames cap bytes = before) :
      Polled cap bytes before (bufs, .awaiting p.request)
  | frame {bufs : ReadBuffers} (kind : UInt8) {len : ℕ} (hlen : len ≤ cap)
      (hread : HasRead cap bytes bufs Partial.empty)
      (hframes : completeFrames cap bytes = before ++ [bufs.payload.take len]) :
      Polled cap bytes before (bufs, .returned (.ok kind len))
  | failed {bufs : ReadBuffers} (hframes : completeFrames cap bytes = before) :
      Polled cap bytes before (bufs, .returned .err)

/-- Who pushed an item to a queue. -/
inductive Producer
  | stream
  | other
  deriving DecidableEq

namespace HasRead

variable {cap : ℕ} {bytes : List UInt8} {bufs : ReadBuffers} {p : Partial}

theorem ofStart {payload : List UInt8} (hpayload : payload.length = cap) :
    HasRead cap [] ⟨bridgeFrameReader, payload⟩ Partial.empty where
  decode_eq := ⟨[], rfl, by simp⟩
  tracks := Tracks.ofEmpty hpayload rfl

theorem enter (hread : HasRead cap bytes bufs p) :
    bufs.enter = (bufs, .awaiting p.request) :=
  hread.tracks.enter

theorem exchange
    (hread : HasRead cap bytes bufs Partial.empty) {payload : List UInt8}
    (hpayload : payload.length = cap) :
    HasRead cap bytes { bufs with payload := payload } Partial.empty where
  decode_eq := hread.decode_eq
  tracks :=
    { hread.tracks with
      payload_length := hpayload
      payload_take := rfl }

theorem afterPoll
    (hread : HasRead cap bytes bufs p) {more : List UInt8}
    {next : ReadBuffers × CallStatus}
    (hfollows : Follows bridgeMagic false cap next
      (p.decode bridgeMagic false cap (more.map .byte))) :
    Polled cap (bytes ++ more) (completeFrames cap bytes) next := by
  obtain ⟨results, hdecode, hclean⟩ := hread.decode_eq
  generalize hmore : p.decode bridgeMagic false cap (more.map .byte) = outcome
    at hfollows
  have hboth : Partial.empty.decode bridgeMagic false cap
      ((bytes ++ more).map .byte) = (outcome.1, results ++ outcome.2) := by
    rw [List.map_append, Partial.decode_append, hdecode, hmore]
  have hframes : completeFrames cap (bytes ++ more) =
      completeFrames cap bytes ++ outcome.2.filterMap okPayload := by
    rw [completeFrames, hboth, completeFrames, hdecode, List.filterMap_append]
  cases hfollows with
  | parked htracks =>
      have hnothing : results ++ [] = results := List.append_nil results
      rw [hnothing] at hboth
      exact .parked ⟨⟨results, hboth, hclean⟩, htracks⟩ (by simpa using hframes)
  | @returned bufs outcome hlen htracks =>
      cases outcome with
      | err =>
          simp only [ReadOutcome.result, okPayload, List.filterMap_cons,
            List.filterMap_nil, List.append_nil] at hframes
          exact .failed hframes
      | ok kind len =>
          refine .frame kind hlen ⟨⟨_, hboth, ?_⟩, htracks⟩ hframes
          simpa [ReadOutcome.result] using hclean

theorem resume
    (hread : HasRead cap bytes bufs p) {more : List UInt8} (hmore : more ≠ [])
    (hsize : more.length ≤ bufs.requestSize p.request) :
    Polled cap (bytes ++ more) (completeFrames cap bytes)
      (bufs.resume p.request (some more)) :=
  hread.afterPoll (hread.tracks.resume hmore hsize)

theorem bytes_eq (hread : HasRead cap bytes bufs p) :
    bytes = (completeFrames cap bytes).flatMap bridgeFramed ++ partialBytes p := by
  obtain ⟨results, hdecode, hclean⟩ := hread.decode_eq
  have hbytes := bytes_of_decode (inProgress_empty cap) hdecode hclean
  rw [completeFrames, hdecode]
  exact hbytes

end HasRead

theorem resume_fault (bufs : ReadBuffers) (request : ReadRequest) :
    bufs.resume request none = (bufs.reset, .returned .err) := by
  cases request <;> rfl

end BridgeFrame
end PicoFi
