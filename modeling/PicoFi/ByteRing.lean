import PicoFi.ByteBuffer
import Mathlib.Data.List.Rotate

/-!
# Cyclic windows of a fixed buffer

A ring is a buffer together with a head and a fill level.  What it holds is
the window of that length from the head on, wrapping at the end of the
buffer.  The results say how the window changes when the head advances and
when bytes are written behind the filled part in at most two pieces.
-/

namespace PicoFi
namespace Ring

open Buffer

variable {α : Type*}

/-- The `n` elements from `head` on, wrapping at the end of the buffer. -/
def window (buf : List α) (head n : ℕ) : List α :=
  (buf.rotate head).take n

/-- The number of elements of a run of length `n` that lie before the wrap. -/
def beforeWrap (size start n : ℕ) : ℕ :=
  min n (size - start)

/-- Write `src` from `tail` on, continuing at the start of the buffer. -/
def write (buf : List α) (tail : ℕ) (src : List α) : List α :=
  let first := beforeWrap buf.length tail src.length
  splice (splice buf tail (src.take first)) 0 (src.drop first)

theorem length_window {buf : List α} {head n : ℕ} (hn : n ≤ buf.length) :
    (window buf head n).length = n := by
  simp [window, hn]

@[simp] theorem window_zero (buf : List α) (head : ℕ) :
    window buf head 0 = [] := by
  simp [window]

theorem wrap_index {size a b : ℕ} (ha : a < size) (hb : b ≤ size) :
    (a + b) % size = if a + b < size then a + b else a + b - size := by
  by_cases hlt : a + b < size
  · rw [if_pos hlt, Nat.mod_eq_of_lt hlt]
  · rw [if_neg hlt, Nat.mod_eq_sub_mod (by omega), Nat.mod_eq_of_lt (by omega)]

theorem getElem?_window {buf : List α} {head n i : ℕ}
    (hn : n ≤ buf.length) (hi : i < n) :
    (window buf head n)[i]? = buf[(head + i) % buf.length]? := by
  rw [window, List.getElem?_take_of_lt hi, List.getElem?_rotate (by omega),
    Nat.add_comm i head]

/-- A run of `n` elements from `head` on is read in two contiguous pieces. -/
theorem window_eq_pieces (buf : List α) (head n : ℕ)
    (hhead : head < buf.length) (hn : n ≤ buf.length) :
    window buf head n =
      slice buf head (head + beforeWrap buf.length head n) ++
        slice buf 0 (n - beforeWrap buf.length head n) := by
  unfold window beforeWrap
  rw [List.rotate_eq_drop_append_take hhead.le, List.take_append,
    List.length_drop, slice_zero]
  congr 1
  · simp only [slice, List.drop_take]
    by_cases hle : n ≤ buf.length - head
    · rw [Nat.min_eq_left hle]
      congr 1
      omega
    · rw [Nat.min_eq_right (by omega), List.take_of_length_le (by simp; omega),
        List.take_of_length_le (by simp)]
  · rw [List.take_take]
    congr 1
    omega

theorem window_advance (buf : List α) (head k n : ℕ)
    (hk : k ≤ n) (hn : n ≤ buf.length) :
    window buf ((head + k) % buf.length) (n - k) =
      (window buf head n).drop k := by
  unfold window
  have hlen : (buf.rotate head).length = buf.length := List.length_rotate buf head
  have hfit : n - k ≤ ((buf.rotate head).drop k).length := by
    simp only [List.length_drop, hlen]
    omega
  rw [List.rotate_mod, ← List.rotate_rotate,
    List.rotate_eq_drop_append_take (by omega),
    List.take_append_of_le_length hfit, List.drop_take]

@[simp] theorem length_write {buf src : List α} {tail : ℕ}
    (htail : tail < buf.length) (hsrc : src.length ≤ buf.length) :
    (write buf tail src).length = buf.length := by
  have hfirst : tail + (src.take (beforeWrap buf.length tail src.length)).length ≤
      buf.length := by
    simp only [List.length_take, beforeWrap]
    omega
  unfold write
  simp only
  rw [length_splice, length_splice hfirst]
  rw [length_splice hfirst]
  simp only [List.length_drop]
  omega

theorem getElem?_write {buf src : List α} {tail : ℕ}
    (htail : tail < buf.length) (hsrc : src.length ≤ buf.length) (i : ℕ) :
    (write buf tail src)[i]? =
      if tail ≤ i ∧ i < tail + beforeWrap buf.length tail src.length then
        src[i - tail]?
      else if i < src.length - beforeWrap buf.length tail src.length then
        src[beforeWrap buf.length tail src.length + i]?
      else buf[i]? := by
  generalize hfirst : beforeWrap buf.length tail src.length = first
  have hle : first ≤ src.length := by
    rw [← hfirst]
    exact Nat.min_le_left _ _
  have hroom : first ≤ buf.length - tail := by
    rw [← hfirst]
    exact Nat.min_le_right _ _
  have hor : first = src.length ∨ first = buf.length - tail := by
    rw [← hfirst]
    unfold beforeWrap
    omega
  have htake : (src.take first).length = first := by simp [hle]
  have hinner : (splice buf tail (src.take first)).length = buf.length :=
    length_splice (by rw [htake]; omega)
  unfold write
  simp only [hfirst]
  rw [getElem?_splice (by simp only [List.length_drop]; omega),
    getElem?_splice (by rw [htake]; omega), htake]
  simp only [List.length_drop, Nat.zero_le, true_and, Nat.zero_add, Nat.sub_zero,
    List.getElem?_drop]
  by_cases hwrapped : i < src.length - first
  · have hnot : ¬(tail ≤ i ∧ i < tail + first) := by omega
    rw [if_pos hwrapped, if_neg hnot, if_pos hwrapped]
  · rw [if_neg hwrapped, if_neg hwrapped]
    by_cases hin : tail ≤ i ∧ i < tail + first
    · rw [if_pos hin, if_pos hin, List.getElem?_take_of_lt (by omega)]
    · rw [if_neg hin, if_neg hin]

theorem window_write (buf src : List α) (head used : ℕ)
    (hhead : head < buf.length) (hfit : used + src.length ≤ buf.length) :
    window (write buf ((head + used) % buf.length) src) head (used + src.length) =
      window buf head used ++ src := by
  have htail : (head + used) % buf.length < buf.length :=
    Nat.mod_lt _ (by omega)
  have hlength : (write buf ((head + used) % buf.length) src).length = buf.length :=
    length_write htail (by omega)
  have hwindow : (window buf head used).length = used := length_window (by omega)
  apply List.ext_getElem?
  intro i
  by_cases hi : i < used + src.length
  · rw [getElem?_window (by omega) hi, hlength,
      getElem?_write htail (by omega), List.getElem?_append, hwindow]
    have hindex := wrap_index hhead (show i ≤ buf.length by omega)
    have hstart := wrap_index hhead (show used ≤ buf.length by omega)
    have hfirst : beforeWrap buf.length ((head + used) % buf.length) src.length =
        min src.length (buf.length - (head + used) % buf.length) := rfl
    rw [hfirst]
    generalize (head + i) % buf.length = target at *
    generalize (head + used) % buf.length = tail at *
    by_cases hold : i < used
    · have hmiss : ¬(tail ≤ target ∧
          target < tail + min src.length (buf.length - tail)) := by
        split at hindex <;> split at hstart <;> omega
      have hmiss' : ¬target < src.length - min src.length (buf.length - tail) := by
        split at hindex <;> split at hstart <;> omega
      rw [if_neg hmiss, if_neg hmiss', if_pos hold,
        getElem?_window (by omega) hold, wrap_index hhead (by omega), ← hindex]
    · rw [if_neg hold]
      by_cases hpiece : tail ≤ target ∧
          target < tail + min src.length (buf.length - tail)
      · rw [if_pos hpiece]
        congr 1
        split at hindex <;> split at hstart <;> omega
      · have hrest : target < src.length - min src.length (buf.length - tail) := by
          split at hindex <;> split at hstart <;> omega
        rw [if_neg hpiece, if_pos hrest]
        congr 1
        split at hindex <;> split at hstart <;> omega
  · rw [List.getElem?_eq_none (by rw [length_window (by omega)]; omega),
      List.getElem?_eq_none (by simp [hwindow]; omega)]

end Ring
end PicoFi
