import Mathlib.Tactic

/-!
# Fixed buffers as lists

Windows into a buffer, overwriting a window in place, and the little-endian
words that frame headers are made of.  Nothing here names a protocol: a
buffer is a list whose length the caller keeps.
-/

namespace PicoFi
namespace Buffer

variable {α : Type*}

/-- A condition on the bytes of a list is checked along the list, not for
every byte there is. -/
instance (priority := 2000) decidableForallMemByte (bytes : List UInt8)
    (p : UInt8 → Prop) [DecidablePred p] : Decidable (∀ b ∈ bytes, p b) :=
  List.decidableBAll p bytes

def slice (buf : List α) (start stop : ℕ) : List α :=
  (buf.take stop).drop start

/-- The window `buf[start..stop]`, or `none` where indexing would panic. -/
def slice? (buf : List α) (start stop : ℕ) : Option (List α) :=
  if start ≤ stop ∧ stop ≤ buf.length then some (slice buf start stop) else none

/-- `buf[start..start + src.len()].copy_from_slice(src)`. -/
def splice (buf : List α) (start : ℕ) (src : List α) : List α :=
  buf.take start ++ src ++ buf.drop (start + src.length)

theorem length_slice {buf : List α} {start stop : ℕ}
    (hstop : stop ≤ buf.length) :
    (slice buf start stop).length = stop - start := by
  simp [slice, hstop]

theorem slice?_eq_some {buf : List α} {start stop : ℕ}
    (hstart : start ≤ stop) (hstop : stop ≤ buf.length) :
    slice? buf start stop = some (slice buf start stop) := by
  simp [slice?, hstart, hstop]

theorem slice_append_right {front back : List α} {start stop : ℕ}
    (hstart : front.length ≤ start) :
    slice (front ++ back) start stop =
      slice back (start - front.length) (stop - front.length) := by
  by_cases hstop : stop ≤ front.length
  · have hempty : stop - front.length = 0 := Nat.sub_eq_zero_of_le hstop
    simp only [slice, hempty, List.take_zero, List.drop_nil]
    apply List.drop_eq_nil_of_le
    simp only [List.length_take, List.length_append]
    omega
  · have hfront : front.drop start = [] := List.drop_eq_nil_of_le hstart
    have htake : front.take stop = front :=
      List.take_of_length_le (by omega)
    simp [slice, List.take_append, htake, List.drop_append, hfront]

theorem slice_zero (buf : List α) (stop : ℕ) :
    slice buf 0 stop = buf.take stop := by
  simp [slice]

@[simp] theorem length_splice {buf src : List α} {start : ℕ}
    (hfit : start + src.length ≤ buf.length) :
    (splice buf start src).length = buf.length := by
  simp only [splice, List.length_append, List.length_take, List.length_drop]
  omega

theorem length_splice_of_length {buf src : List α} {start n : ℕ}
    (hlength : buf.length = n) (hfit : start + src.length ≤ n) :
    (splice buf start src).length = n := by
  rw [length_splice (hfit.trans_eq hlength.symm), hlength]

theorem splice_zero (buf src : List α) :
    splice buf 0 src = src ++ buf.drop src.length := by
  simp [splice]

theorem take_splice_end {buf src : List α} {start : ℕ}
    (hstart : start ≤ buf.length) :
    (splice buf start src).take (start + src.length) = buf.take start ++ src := by
  have hlen : (buf.take start ++ src).length = start + src.length := by
    simp [hstart]
  rw [splice, ← hlen, List.take_left]

theorem getElem?_splice {buf src : List α} {start : ℕ}
    (hfit : start + src.length ≤ buf.length) (i : ℕ) :
    (splice buf start src)[i]? =
      if start ≤ i ∧ i < start + src.length then src[i - start]? else buf[i]? := by
  have hfront : (buf.take start).length = start := by simp; omega
  unfold splice
  rw [List.append_assoc, List.getElem?_append, hfront]
  by_cases hlow : i < start
  · have hnot : ¬(start ≤ i ∧ i < start + src.length) := by omega
    rw [if_pos hlow, if_neg hnot, List.getElem?_take_of_lt hlow]
  · rw [if_neg hlow, List.getElem?_append]
    by_cases hmid : i - start < src.length
    · have hin : start ≤ i ∧ i < start + src.length := by omega
      rw [if_pos hmid, if_pos hin]
    · have hout : ¬(start ≤ i ∧ i < start + src.length) := by omega
      rw [if_neg hmid, if_neg hout, List.getElem?_drop]
      congr 1
      omega

/-! ## Little-endian words -/

/-- `(n as u16).to_le_bytes()`. -/
def le16 (n : ℕ) : List UInt8 :=
  [UInt8.ofNat n, UInt8.ofNat (n / 256)]

/-- `u16::from_le_bytes([lo, hi])`. -/
def u16le (lo hi : UInt8) : ℕ :=
  lo.toNat + 256 * hi.toNat

@[simp] theorem length_le16 (n : ℕ) : (le16 n).length = 2 := rfl

theorem u16le_ofNat {n : ℕ} (hn : n < 65536) :
    u16le (UInt8.ofNat n) (UInt8.ofNat (n / 256)) = n := by
  simp only [u16le, UInt8.toNat_ofNat']
  omega

theorem le16_u16le (lo hi : UInt8) : le16 (u16le lo hi) = [lo, hi] := by
  have hlo := lo.toNat_lt
  have hhi := hi.toNat_lt
  have hlow : UInt8.ofNat (lo.toNat + 256 * hi.toNat) = lo := by
    apply UInt8.toNat_inj.mp
    rw [UInt8.toNat_ofNat']
    omega
  have hdiv : (lo.toNat + 256 * hi.toNat) / 256 = hi.toNat := by omega
  simp only [le16, u16le, hlow, hdiv, UInt8.ofNat_toNat]

/-- The low `k` bytes of a word, least significant first. -/
def leBytes : ℕ → ℕ → List UInt8
  | 0, _ => []
  | k + 1, n => UInt8.ofNat n :: leBytes k (n / 256)

def leValue : List UInt8 → ℕ
  | [] => 0
  | b :: bytes => b.toNat + 256 * leValue bytes

@[simp] theorem length_leBytes (k n : ℕ) : (leBytes k n).length = k := by
  induction k generalizing n with
  | zero => rfl
  | succ k ih => rw [leBytes, List.length_cons, ih]

theorem leValue_leBytes {k n : ℕ} (hn : n < 256 ^ k) : leValue (leBytes k n) = n := by
  induction k generalizing n with
  | zero =>
      rw [pow_zero, Nat.lt_one_iff] at hn
      rw [hn]
      rfl
  | succ k ih =>
      have hrest : n / 256 < 256 ^ k := by
        rw [Nat.div_lt_iff_lt_mul (by decide), ← pow_succ]
        exact hn
      rw [leBytes, leValue, ih hrest, UInt8.toNat_ofNat']
      omega

theorem leBytes_leValue (bytes : List UInt8) :
    leBytes bytes.length (leValue bytes) = bytes := by
  induction bytes with
  | nil => rfl
  | cons b bytes ih =>
      have hb := b.toNat_lt
      have hlow : UInt8.ofNat (b.toNat + 256 * leValue bytes) = b := by
        apply UInt8.toNat_inj.mp
        rw [UInt8.toNat_ofNat']
        omega
      have hrest : (b.toNat + 256 * leValue bytes) / 256 = leValue bytes := by omega
      rw [leValue, List.length_cons, leBytes, hlow, hrest, ih]

theorem leValue_lt (bytes : List UInt8) : leValue bytes < 256 ^ bytes.length := by
  induction bytes with
  | nil => exact Nat.one_pos
  | cons b bytes ih =>
      have hb := b.toNat_lt
      rw [leValue, List.length_cons, pow_succ]
      omega

/-! ## Vectors of bounded capacity -/

/-- `heapless::Vec<T, CAP>`. -/
@[ext] structure BoundedVec (α : Type*) (cap : ℕ) where
  asSlice : List α
  length_le : asSlice.length ≤ cap
  deriving DecidableEq

namespace BoundedVec

variable {cap : ℕ}

def new : BoundedVec α cap := ⟨[], Nat.zero_le cap⟩

/-- `extend_from_slice`: all of `src` is appended, or nothing is. -/
def extendFromSlice (v : BoundedVec α cap) (src : List α) :
    Option (BoundedVec α cap) :=
  if h : (v.asSlice ++ src).length ≤ cap then some ⟨v.asSlice ++ src, h⟩
  else none

@[simp] theorem asSlice_new : (new : BoundedVec α cap).asSlice = [] := rfl

theorem extendFromSlice_eq_some (v w : BoundedVec α cap) (src : List α)
    (h : w.asSlice = v.asSlice ++ src) :
    v.extendFromSlice src = some w := by
  have hfit : (v.asSlice ++ src).length ≤ cap := h ▸ w.length_le
  unfold extendFromSlice
  rw [dif_pos hfit, Option.some.injEq]
  exact BoundedVec.ext h.symm

theorem asSlice_of_extendFromSlice {v w : BoundedVec α cap} {src : List α}
    (h : v.extendFromSlice src = some w) :
    w.asSlice = v.asSlice ++ src := by
  unfold extendFromSlice at h
  split at h
  next =>
    rw [Option.some.injEq] at h
    rw [← h]
  next => contradiction

end BoundedVec

/-! ## Buffers of fixed size -/

/-- `[u8; SIZE]`. -/
@[ext] structure FixedBytes (size : ℕ) where
  toList : List UInt8
  length_toList : toList.length = size
  deriving DecidableEq

namespace FixedBytes

variable {size : ℕ}

/-- The byte at an index; callers only use indices below the size. -/
def byte (b : FixedBytes size) (i : ℕ) : UInt8 := b.toList.getD i 0

theorem getElem?_toList (b : FixedBytes size) {i : ℕ} (hi : i < size) :
    b.toList[i]? = some (b.byte i) := by
  have hlength : i < b.toList.length := by rwa [b.length_toList]
  simp [byte, hlength]

/-- A front of at most `size` bytes, padded with zeros. -/
def padded (front : List UInt8) : FixedBytes size :=
  ⟨(front ++ List.replicate (size - front.length) 0).take size, by simp; omega⟩

/-- `buf[start..start + src.len()].copy_from_slice(src)` inside the buffer. -/
def write (b : FixedBytes size) (start : ℕ) (src : List UInt8)
    (hfit : start + src.length ≤ size) : FixedBytes size :=
  ⟨splice b.toList start src, by
    rw [length_splice (by rw [b.length_toList]; exact hfit), b.length_toList]⟩

/-- The same write, or `none` where the slice would panic. -/
def write? (b : FixedBytes size) (start : ℕ) (src : List UInt8) :
    Option (FixedBytes size) :=
  if hfit : start + src.length ≤ size then some (b.write start src hfit)
  else none

theorem isSome_write? {b : FixedBytes size} {start : ℕ} {src : List UInt8}
    (hfit : start + src.length ≤ size) : (b.write? start src).isSome = true := by
  rw [write?, dif_pos hfit]
  rfl

theorem write?_eq_some {b : FixedBytes size} {start : ℕ} {src : List UInt8}
    (hfit : start + src.length ≤ size) :
    ∃ c, b.write? start src = some c ∧
      c.toList.take (start + src.length) = b.toList.take start ++ src := by
  refine ⟨b.write start src hfit, by rw [write?, dif_pos hfit], ?_⟩
  apply take_splice_end
  rw [b.length_toList]
  omega

theorem take_of_write? {b c : FixedBytes size} {start : ℕ} {src : List UInt8}
    (h : b.write? start src = some c) :
    c.toList.take (start + src.length) = b.toList.take start ++ src := by
  unfold write? at h
  split at h
  next hfit =>
    obtain ⟨d, hd, htake⟩ := @write?_eq_some _ b _ _ hfit
    rw [write?, dif_pos hfit, h] at hd
    rwa [Option.some.inj hd]
  next => contradiction

theorem toList_padded (front : List UInt8) (hfront : front.length ≤ size) :
    (padded front : FixedBytes size).toList =
      front ++ List.replicate (size - front.length) 0 := by
  apply List.take_of_length_le
  simp
  omega

theorem padded_append_zeros {front : List UInt8} {m : ℕ}
    (hfit : front.length + m ≤ size) :
    (padded (front ++ List.replicate m 0) : FixedBytes size) = padded front := by
  apply FixedBytes.ext
  rw [toList_padded _ (by simpa using hfit), toList_padded _ (by omega), List.append_assoc,
    List.replicate_append_replicate, List.length_append, List.length_replicate]
  congr 2
  omega

/-- Writing at the end of what was written extends it. -/
theorem write?_padded {front src : List UInt8} (hfit : front.length + src.length ≤ size) :
    (padded front : FixedBytes size).write? front.length src =
      some (padded (front ++ src)) := by
  rw [write?, dif_pos hfit, Option.some.injEq]
  apply FixedBytes.ext
  rw [toList_padded _ (by simpa using hfit), write]
  dsimp only
  rw [toList_padded _ (by omega), splice, List.take_left, ← List.drop_drop,
    List.drop_left, List.drop_replicate, List.length_append, Nat.sub_sub]

theorem byte_write {b : FixedBytes size} {start : ℕ} {src : List UInt8}
    (hfit : start + src.length ≤ size) (i : ℕ) :
    (b.write start src hfit).byte i =
      if start ≤ i ∧ i < start + src.length then src.getD (i - start) 0
      else b.byte i := by
  have hlist : start + src.length ≤ b.toList.length := by rwa [b.length_toList]
  simp only [byte, write, List.getD_eq_getElem?_getD, getElem?_splice hlist]
  split <;> rfl

theorem byte_write_of_disjoint {b : FixedBytes size} {start i : ℕ}
    {src : List UInt8} (hfit : start + src.length ≤ size)
    (hapart : i < start ∨ start + src.length ≤ i) :
    (b.write start src hfit).byte i = b.byte i := by
  rw [byte_write, if_neg (by omega)]

theorem byte_write_inside {b : FixedBytes size} {start i : ℕ}
    {src : List UInt8} (hfit : start + src.length ≤ size)
    (hinside : start ≤ i ∧ i < start + src.length) :
    (b.write start src hfit).byte i = src.getD (i - start) 0 := by
  rw [byte_write, if_pos hinside]

theorem slice_write_self {b : FixedBytes size} {start : ℕ} {src : List UInt8}
    (hfit : start + src.length ≤ size) {stop : ℕ}
    (hstop : start + src.length = stop) :
    slice (b.write start src hfit).toList start stop = src := by
  have hstart : start ≤ b.toList.length := by
    rw [b.length_toList]
    omega
  have hfront : (b.toList.take start).length = start := by simpa using hstart
  rw [← hstop, slice, write, take_splice_end hstart]
  exact List.drop_left' hfront

/-- Buffers that agree inside a window have the same window. -/
theorem slice_congr {b c : FixedBytes size} {lo hi : ℕ}
    (hbyte : ∀ i, lo ≤ i → i < hi → b.byte i = c.byte i) :
    slice b.toList lo hi = slice c.toList lo hi := by
  apply List.ext_getElem?
  intro i
  simp only [slice, List.getElem?_drop, List.getElem?_take]
  split
  next hlow =>
    by_cases hsize : lo + i < size
    · rw [b.getElem?_toList hsize, c.getElem?_toList hsize,
        hbyte _ (Nat.le_add_right lo i) hlow]
    · have hout : size ≤ lo + i := Nat.le_of_not_lt hsize
      rw [List.getElem?_eq_none (b.length_toList.trans_le hout),
        List.getElem?_eq_none (c.length_toList.trans_le hout)]
  next => rfl

theorem slice_write_of_disjoint {b : FixedBytes size} {start : ℕ}
    {src : List UInt8} (hfit : start + src.length ≤ size) {lo hi : ℕ}
    (hapart : hi ≤ start ∨ start + src.length ≤ lo) :
    slice (b.write start src hfit).toList lo hi = slice b.toList lo hi :=
  slice_congr fun _ _ _ => byte_write_of_disjoint hfit (by omega)

end FixedBytes

end Buffer
end PicoFi
