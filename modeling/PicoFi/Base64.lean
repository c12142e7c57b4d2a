import Mathlib.Tactic

/-!
# Base64

Three bytes become four characters of an alphabet, and a last group of one or
two bytes is filled with a pad character.  The decoder reads one character at a
time, passes over characters outside its alphabet and stops at the pad that
completes a group, as the usual lenient decoders do.
-/

namespace PicoFi
namespace Base64

/-- The characters of the 64 values, and the values of the characters that are
read; more characters may be read than are written. -/
structure Alphabet where
  char : ℕ → UInt8
  pad : UInt8
  value : UInt8 → Option ℕ
  value_char : ∀ v < 64, value (char v) = some v
  char_ne_pad : ∀ v < 64, char v ≠ pad

variable (A : Alphabet)

def encode : List UInt8 → List UInt8
  | [] => []
  | [a] => [A.char (a.toNat / 4), A.char (a.toNat % 4 * 16), A.pad, A.pad]
  | [a, b] =>
      [A.char (a.toNat / 4), A.char (a.toNat % 4 * 16 + b.toNat / 16),
        A.char (b.toNat % 16 * 4), A.pad]
  | a :: b :: c :: rest =>
      A.char (a.toNat / 4) :: A.char (a.toNat % 4 * 16 + b.toNat / 16) ::
        A.char (b.toNat % 16 * 4 + c.toNat / 64) :: A.char (c.toNat % 64) :: encode rest

/-- The place in the group, what is left of the last value there, the pads read
in it, and the bytes so far. -/
structure Reading where
  quad : ℕ
  left : ℕ
  pads : ℕ
  done : Bool
  out : List UInt8

namespace Reading

def start : Reading := ⟨0, 0, 0, false, []⟩

def pushValue (r : Reading) (v : ℕ) : Reading :=
  match r.quad with
  | 0 => { r with quad := 1, left := v, pads := 0 }
  | 1 => { r with
      quad := 2, left := v % 16, pads := 0
      out := r.out ++ [UInt8.ofNat (r.left * 4 + v / 16)] }
  | 2 => { r with
      quad := 3, left := v % 4, pads := 0
      out := r.out ++ [UInt8.ofNat (r.left * 16 + v / 4)] }
  | _ => { r with
      quad := 0, left := 0, pads := 0
      out := r.out ++ [UInt8.ofNat (r.left * 64 + v)] }

def pushPad (r : Reading) : Reading :=
  if 2 ≤ r.quad then { r with pads := r.pads + 1, done := decide (4 ≤ r.quad + (r.pads + 1)) }
  else r

def push (r : Reading) (c : UInt8) : Reading :=
  if r.done then r
  else if c = A.pad then r.pushPad
  else
    match A.value c with
    | none => r
    | some v => r.pushValue v

end Reading

def decode (chars : List UInt8) : Option (List UInt8) :=
  let r := chars.foldl (Reading.push A) Reading.start
  if r.done ∨ r.quad = 0 then some r.out else none

section Lemmas

variable {A} {r : Reading} {a b c : UInt8} {bytes : List UInt8}

theorem push_char {v : ℕ} (hv : v < 64) (hopen : r.done = false) :
    r.push A (A.char v) = r.pushValue v := by
  simp [Reading.push, hopen, A.char_ne_pad v hv, A.value_char v hv]

theorem push_pad (hopen : r.done = false) : r.push A A.pad = r.pushPad := by
  simp [Reading.push, hopen]

theorem ofNat_eq {n : ℕ} (h : n = a.toNat) : UInt8.ofNat n = a := by
  rw [h]
  exact UInt8.ofNat_toNat

/-- Between two groups only the bytes so far count. -/
def between (out : List UInt8) (pads : ℕ) : Reading := ⟨0, 0, pads, false, out⟩

theorem read_first (out : List UInt8) (pads : ℕ) (b : UInt8) :
    ((between out pads).push A (A.char (a.toNat / 4))).push A
        (A.char (a.toNat % 4 * 16 + b.toNat / 16)) =
      ⟨2, b.toNat / 16, 0, false, out ++ [a]⟩ := by
  have ha := a.toNat_lt
  have hb := b.toNat_lt
  have hone : (between out pads).push A (A.char (a.toNat / 4)) =
      ⟨1, a.toNat / 4, 0, false, out⟩ := push_char (by omega) rfl
  rw [hone, push_char (by omega) rfl]
  have hbyte : UInt8.ofNat (a.toNat / 4 * 4 + (a.toNat % 4 * 16 + b.toNat / 16) / 16) = a :=
    ofNat_eq (by omega)
  have hleft : (a.toNat % 4 * 16 + b.toNat / 16) % 16 = b.toNat / 16 := by omega
  simp only [Reading.pushValue, hbyte, hleft]

theorem read_second (out : List UInt8) (c : UInt8) :
    (Reading.push A ⟨2, b.toNat / 16, 0, false, out⟩
        (A.char (b.toNat % 16 * 4 + c.toNat / 64))) =
      ⟨3, c.toNat / 64, 0, false, out ++ [b]⟩ := by
  have hb := b.toNat_lt
  have hc := c.toNat_lt
  rw [push_char (by omega) rfl]
  have hbyte : UInt8.ofNat (b.toNat / 16 * 16 + (b.toNat % 16 * 4 + c.toNat / 64) / 4) = b :=
    ofNat_eq (by omega)
  have hleft : (b.toNat % 16 * 4 + c.toNat / 64) % 4 = c.toNat / 64 := by omega
  simp only [Reading.pushValue, hbyte, hleft]

theorem read_third (out : List UInt8) :
    (Reading.push A ⟨3, c.toNat / 64, 0, false, out⟩ (A.char (c.toNat % 64))) =
      between (out ++ [c]) 0 := by
  have hc := c.toNat_lt
  rw [push_char (by omega) rfl]
  have hbyte : UInt8.ofNat (c.toNat / 64 * 64 + c.toNat % 64) = c := ofNat_eq (by omega)
  simp only [Reading.pushValue, hbyte, between]

/-- Reading an encoding adds its bytes, and ends between two groups or at the
pad that ends the last one. -/
theorem foldl_encode (bytes out : List UInt8) (pads : ℕ) :
    let r := (encode A bytes).foldl (Reading.push A) (between out pads)
    r.out = out ++ bytes ∧ (r.done = true ∨ r.quad = 0) := by
  induction bytes using encode.induct generalizing out pads with
  | case1 => exact ⟨(List.append_nil out).symm, .inr rfl⟩
  | case2 a =>
      have hfirst := @read_first A a out pads 0
      simp only [UInt8.toNat_zero, Nat.zero_div, Nat.add_zero] at hfirst
      have hpad : Reading.push A ⟨2, 0, 0, false, out ++ [a]⟩ A.pad =
          ⟨2, 0, 1, false, out ++ [a]⟩ := push_pad rfl
      simp only [encode, List.foldl_cons, List.foldl_nil, hfirst, hpad]
      rw [push_pad rfl]
      exact ⟨rfl, .inl rfl⟩
  | case3 a b =>
      have hsecond := @read_second A b (out ++ [a]) 0
      simp only [UInt8.toNat_zero, Nat.zero_div, Nat.add_zero] at hsecond
      simp only [encode, List.foldl_cons, List.foldl_nil, read_first, hsecond]
      rw [push_pad rfl]
      exact ⟨by simp [Reading.pushPad], .inl rfl⟩
  | case4 a b c rest ih =>
      simp only [encode, List.foldl_cons, read_first, read_second, read_third]
      obtain ⟨hout, hend⟩ := ih (out ++ [a] ++ [b] ++ [c]) 0
      exact ⟨by simpa using hout, hend⟩

theorem decode_encode (bytes : List UInt8) : decode A (encode A bytes) = some bytes := by
  obtain ⟨hout, hend⟩ := @foldl_encode A bytes [] 0
  rw [decode, if_pos]
  · exact congrArg some hout
  · exact hend

theorem length_encode (bytes : List UInt8) :
    (encode A bytes).length = 4 * ((bytes.length + 2) / 3) := by
  induction bytes using encode.induct with
  | case1 => simp [encode]
  | case2 a => simp [encode]
  | case3 a b => simp [encode]
  | case4 a b c rest ih =>
      simp only [encode, List.length_cons, ih]
      omega

/-- Only characters of the alphabet and pads are written. -/
theorem mem_encode (hmem : c ∈ encode A bytes) : c = A.pad ∨ ∃ v < 64, c = A.char v := by
  induction bytes using encode.induct with
  | case1 => cases hmem
  | case2 a =>
      have ha := a.toNat_lt
      simp only [encode, List.mem_cons, List.not_mem_nil, or_false] at hmem
      rcases hmem with rfl | rfl | rfl | rfl
      · exact .inr ⟨_, by omega, rfl⟩
      · exact .inr ⟨_, by omega, rfl⟩
      · exact .inl rfl
      · exact .inl rfl
  | case3 a b =>
      have ha := a.toNat_lt
      have hb := b.toNat_lt
      simp only [encode, List.mem_cons, List.not_mem_nil, or_false] at hmem
      rcases hmem with rfl | rfl | rfl | rfl
      · exact .inr ⟨_, by omega, rfl⟩
      · exact .inr ⟨_, by omega, rfl⟩
      · exact .inr ⟨_, by omega, rfl⟩
      · exact .inl rfl
  | case4 a b d rest ih =>
      have ha := a.toNat_lt
      have hb := b.toNat_lt
      have hd := d.toNat_lt
      simp only [encode, List.mem_cons] at hmem
      rcases hmem with rfl | rfl | rfl | rfl | hrest
      · exact .inr ⟨_, by omega, rfl⟩
      · exact .inr ⟨_, by omega, rfl⟩
      · exact .inr ⟨_, by omega, rfl⟩
      · exact .inr ⟨_, by omega, rfl⟩
      · exact ih hrest

end Lemmas

end Base64
end PicoFi
