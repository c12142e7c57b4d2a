import PicoFi.AddressPolicy
import PicoFi.StepRuns
import Mathlib.Data.Nat.Bitwise

/-!
# Calls of the address policy

The policy is called by a tick or by an accepted DHCP offer, at any time and
in any order.  A trace keeps every call with the policy that answered it.  Two
candidates that follow each other are made from consecutive attempt numbers,
and their hashes differ in the lowest bit, so they are different addresses.
-/

namespace PicoFi
namespace AutoIp

/-! ## Candidates of consecutive attempts -/

/-- RFC 3927 leaves out the first and the last 256 addresses of 169.254/16. -/
def LinkLocal (ip : Ipv4) : Prop :=
  ip.o0 = 169 ∧ ip.o1 = 254 ∧ 1 ≤ ip.o2 ∧ ip.o2 ≤ 254

/-- The hash of a candidate. -/
def candidateHash (bytes : List UInt8) (seed : UInt32) : UInt32 :=
  bytes.foldl (fun hash byte => (hash * 16777619) ^^^ byte.toUInt32) seed

/-- The lowest bit of a round: the multiplier is odd. -/
theorem round_mod_two (hash : UInt32) (byte : UInt8) :
    ((hash * 16777619) ^^^ byte.toUInt32).toNat % 2 =
      (hash.toNat + byte.toNat) % 2 := by
  rw [UInt32.toNat_xor, Nat.xor_mod_two_eq, UInt32.toNat_mul]
  simp only [UInt32.reduceToNat, UInt8.toNat_toUInt32]
  omega

/-- A round keeps the lowest bits of two hashes apart. -/
theorem candidateHash_parity (bytes : List UInt8) {seed other : UInt32}
    (hseed : seed.toNat % 2 ≠ other.toNat % 2) :
    (candidateHash bytes seed).toNat % 2 ≠ (candidateHash bytes other).toNat % 2 := by
  induction bytes generalizing seed other with
  | nil => exact hseed
  | cons byte bytes ih =>
      rw [candidateHash, candidateHash, List.foldl_cons, List.foldl_cons]
      apply ih
      rw [round_mod_two, round_mod_two]
      omega

theorem candidateHash_ne (bytes : List UInt8) (attempt : UInt32) :
    (candidateHash bytes (attempt * 0x9e3779b9)).toNat % 2 ≠
      (candidateHash bytes ((attempt + 1) * 0x9e3779b9)).toNat % 2 := by
  apply candidateHash_parity
  simp only [UInt32.toNat_mul, UInt32.toNat_add, UInt32.reduceToNat]
  omega

theorem linkLocalCandidate_eq (mac : Mac) (attempt : UInt32) :
    linkLocalCandidate mac attempt =
      ⟨169, 254,
        1 + (candidateHash mac.toList (attempt * 0x9e3779b9) % 254).toUInt8,
        (candidateHash mac.toList (attempt * 0x9e3779b9) >>> 8).toUInt8⟩ := rfl

/-- `1 + (hash % 254)` does not leave the octet. -/
theorem toNat_candidate_octet (hash : UInt32) :
    (1 + (hash % 254).toUInt8).toNat = 1 + hash.toNat % 254 := by
  simp only [UInt8.toNat_add, UInt32.toNat_toUInt8, UInt32.toNat_mod,
    UInt8.reduceToNat, UInt32.reduceToNat]
  omega

theorem linkLocal_candidate (mac : Mac) (attempt : UInt32) :
    LinkLocal (linkLocalCandidate mac attempt) := by
  rw [linkLocalCandidate_eq]
  generalize candidateHash mac.toList (attempt * 0x9e3779b9) = hash
  have hoctet := toNat_candidate_octet hash
  refine ⟨rfl, rfl, ?_, ?_⟩
  · rw [UInt8.le_iff_toNat_le, hoctet]
    exact Nat.le_add_right 1 _
  · rw [UInt8.le_iff_toNat_le, hoctet]
    show 1 + hash.toNat % 254 ≤ 254
    omega

theorem linkLocalCandidate_ne_succ (mac : Mac) (attempt : UInt32) :
    linkLocalCandidate mac attempt ≠ linkLocalCandidate mac (attempt + 1) := by
  intro heq
  have hparity := candidateHash_ne mac.toList attempt
  rw [linkLocalCandidate_eq, linkLocalCandidate_eq] at heq
  have hoctet := congrArg (fun ip : Ipv4 => ip.o2.toNat) heq
  simp only [toNat_candidate_octet] at hoctet
  omega

/-! ## Traces of calls -/

inductive Call
  | tick (now : ℕ) (link configured connected pending conflict : Bool)
  | offered (now : ℕ)
  deriving DecidableEq

def Call.now : Call → ℕ
  | .tick now _ _ _ _ _ => now
  | .offered now => now

namespace AutoAddress

/-- The policy after a call, with the action it returns. -/
def answer (p : AutoAddress) : Call → AutoAddress × Action
  | .tick now link configured connected pending conflict =>
      p.tick now link configured connected pending conflict
  | .offered now => p.dhcpOffered now

def afterCall (p : AutoAddress) (call : Call) : AutoAddress :=
  (p.answer call).1

end AutoAddress

/-- A call with the policy that it finds. -/
abbrev Visit := AutoAddress × Call

namespace Visit

def now (visit : Visit) : ℕ := visit.2.now

def action (visit : Visit) : Action := (visit.1.answer visit.2).2

def after (visit : Visit) : AutoAddress := visit.1.afterCall visit.2

def IsCandidate (visit : Visit) : Prop := ∃ ip, visit.action = .candidate ip

def IsClaim (visit : Visit) : Prop := ∃ ip, visit.action = .claim ip

instance (visit : Visit) : Decidable visit.IsCandidate :=
  match h : visit.action with
  | .candidate ip => isTrue ⟨ip, h⟩
  | .none | .clear | .dhcp | .probe | .claim _ | .announce | .dhcpProbe _
  | .stopDhcpProbe => isFalse (by simp [IsCandidate, h])

instance (visit : Visit) : Decidable visit.IsClaim :=
  match h : visit.action with
  | .claim ip => isTrue ⟨ip, h⟩
  | .none | .clear | .dhcp | .candidate _ | .probe | .announce | .dhcpProbe _
  | .stopDhcpProbe => isFalse (by simp [IsClaim, h])

end Visit

def policyTrace (p : AutoAddress) (calls : List Call) : List Visit :=
  Runs.trace AutoAddress.afterCall p calls

theorem policyTrace_window (p : AutoAddress) (front middle back : List Call)
    (first last : Call) :
    policyTrace p (front ++ first :: (middle ++ last :: back)) =
      let opened := front.foldl AutoAddress.afterCall p
      let closed := middle.foldl AutoAddress.afterCall (opened.afterCall first)
      policyTrace p front ++ (opened, first) ::
        (policyTrace (opened.afterCall first) middle ++
          (closed, last) :: policyTrace (closed.afterCall last) back) := by
  simp [policyTrace, Runs.trace_append]

/-- The clock of the executor does not go back. -/
def Nondecreasing (calls : List Call) : Prop :=
  calls.Pairwise fun call later => call.now ≤ later.now

instance (calls : List Call) : Decidable (Nondecreasing calls) :=
  inferInstanceAs (Decidable (calls.Pairwise _))

/-- A visit of a trace comes no later than those after it. -/
theorem Nondecreasing.le {p : AutoAddress} {calls : List Call}
    (hclock : Nondecreasing calls) {front back : List Visit} {visit : Visit}
    (htrace : policyTrace p calls = front ++ visit :: back) :
    (∀ earlier ∈ front, earlier.now ≤ visit.now) ∧
      ∀ later ∈ back, visit.now ≤ later.now := by
  have hcalls : (policyTrace p calls).map Prod.snd = calls := Runs.map_snd_trace
  have hpairs : (policyTrace p calls).Pairwise fun visit later =>
      visit.now ≤ later.now := by
    rw [Nondecreasing, ← hcalls, List.pairwise_map] at hclock
    exact hclock
  rw [htrace, List.pairwise_append, List.pairwise_cons] at hpairs
  obtain ⟨-, ⟨hback, -⟩, hfront⟩ := hpairs
  exact ⟨fun earlier h => hfront earlier h visit List.mem_cons_self, hback⟩

/-! ## What a call keeps -/

namespace AutoAddress

variable (p : AutoAddress) (now : ℕ)
variable (link configured connected pending conflict : Bool)

/-- The attempt counter moves with a candidate and with nothing else. -/
theorem tick_attempt :
    (p.tick now link configured connected pending conflict).1.attempt =
      match (p.tick now link configured connected pending conflict).2 with
      | .candidate _ => p.attempt + 1
      | _ => p.attempt := by
  unfold tick
  cases p.phase with
  | online fallback idleSince announceAt =>
      simp only [tickOnline, checkDhcp]
      generalize (if connected = true then now else idleSince) = idle
      repeat' split
      all_goals first | rfl | contradiction
  | _ =>
      simp only [retry]
      repeat' split
      all_goals first | rfl | contradiction

/-- What a call does with the parts of the policy that make a candidate. -/
structure CandidateMove (p p' : AutoAddress) (action : Action) : Prop where
  mac_eq : p'.mac = p.mac
  attempt_eq : (∀ ip, action ≠ .candidate ip) → p'.attempt = p.attempt
  candidate_eq : ∀ ip, action = .candidate ip →
    ip = linkLocalCandidate p.mac p.attempt ∧ p'.attempt = p.attempt + 1

theorem answer_candidate (call : Call) :
    CandidateMove p (p.afterCall call) (p.answer call).2 := by
  cases call with
  | tick now link configured connected pending conflict =>
      have haddress := p.tick_address now link configured connected pending conflict
      have hattempt := p.tick_attempt now link configured connected pending conflict
      refine ⟨haddress.mac_eq, ?_, ?_⟩
      · intro hother
        rw [afterCall, answer, hattempt]
        split
        · exact absurd ‹_› (hother _)
        · rfl
      · intro ip hip
        simp only [answer] at hip
        rw [afterCall, answer, hattempt, hip]
        exact ⟨(haddress.candidate_eq ip hip).2, rfl⟩
  | offered now =>
      simp only [afterCall, answer, dhcpOffered]
      repeat' split
      all_goals exact ⟨rfl, fun _ => rfl, by simp⟩

end AutoAddress

/-- Between two candidates the attempt counter stands still. -/
theorem attempt_kept (p : AutoAddress) (calls : List Call)
    (hquiet : ∀ visit ∈ policyTrace p calls, ¬visit.IsCandidate) :
    (calls.foldl AutoAddress.afterCall p).mac = p.mac ∧
      (calls.foldl AutoAddress.afterCall p).attempt = p.attempt := by
  induction calls generalizing p with
  | nil => exact ⟨rfl, rfl⟩
  | cons call calls ih =>
      have hmove := p.answer_candidate call
      have hfirst : ∀ ip, (p.answer call).2 ≠ .candidate ip := by
        intro ip hip
        exact hquiet (p, call) List.mem_cons_self ⟨ip, hip⟩
      obtain ⟨hmac, hattempt⟩ := ih (p.afterCall call) fun visit hvisit =>
        hquiet visit (List.mem_cons_of_mem _ hvisit)
      exact ⟨hmac.trans hmove.mac_eq, hattempt.trans (hmove.attempt_eq hfirst)⟩

/-- Candidates of consecutive attempts are two different link-local addresses,
and in every run two candidates that follow each other are different. -/
theorem successive_candidates_ne :
    (∀ (mac : Mac) (attempt : UInt32),
      LinkLocal (linkLocalCandidate mac attempt) ∧
      LinkLocal (linkLocalCandidate mac (attempt + 1)) ∧
      linkLocalCandidate mac attempt ≠ linkLocalCandidate mac (attempt + 1)) ∧
    ∀ (p : AutoAddress) (calls : List Call) (front middle back : List Visit)
      (first second : Visit) (ip ip' : Ipv4),
      policyTrace p calls = front ++ first :: (middle ++ second :: back) →
      first.action = .candidate ip → second.action = .candidate ip' →
      (∀ visit ∈ middle, ¬visit.IsCandidate) → ip ≠ ip' := by
  constructor
  · intro mac attempt
    exact ⟨linkLocal_candidate mac attempt, linkLocal_candidate mac (attempt + 1),
      linkLocalCandidate_ne_succ mac attempt⟩
  · intro p calls front middle back first second ip ip' htrace hfirst hsecond hquiet
    obtain ⟨before, after, -, -, -, hrest⟩ := Runs.trace_eq_append_cons htrace
    obtain ⟨between, rest, -, hmiddle, hstate, -⟩ := Runs.trace_eq_append_cons hrest
    obtain ⟨hip, hnext⟩ :=
      (first.1.answer_candidate first.2).candidate_eq ip hfirst
    have hmac := (first.1.answer_candidate first.2).mac_eq
    obtain ⟨hmac', hattempt⟩ := attempt_kept first.after between
      (by rw [policyTrace, Visit.after, hmiddle]; exact hquiet)
    have hip' := ((second.1.answer_candidate second.2).candidate_eq ip' hsecond).1
    change second.1 = between.foldl AutoAddress.afterCall first.after at hstate
    rw [hstate, hmac', hattempt, Visit.after, hmac, hnext] at hip'
    rw [hip, hip']
    exact linkLocalCandidate_ne_succ first.1.mac first.1.attempt

/-- No lease, a candidate, a conflict with it and the next candidate. -/
def conflictedCalls : List Call :=
  [.tick 0 true false false false false, .tick 10000 true false false false false,
    .tick 10020 true false false false false, .tick 10040 true false false false true,
    .tick 10060 true false false false false]

theorem successive_candidates_ne_conflict :
    linkLocalCandidate ⟨2, 1, 2, 3, 4, 5⟩ 0 ≠ linkLocalCandidate ⟨2, 1, 2, 3, 4, 5⟩ 1 :=
  successive_candidates_ne.2 (AutoAddress.new ⟨2, 1, 2, 3, 4, 5⟩) conflictedCalls
    _ _ _ _ _ _ _
    (policyTrace_window _ (conflictedCalls.take 2) [conflictedCalls[3]] []
      conflictedCalls[2] conflictedCalls[4])
    rfl rfl (by
      intro visit hvisit
      rw [List.mem_singleton.mp hvisit]
      decide)

end AutoIp
end PicoFi
