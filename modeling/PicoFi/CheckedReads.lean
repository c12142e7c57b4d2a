import PicoFi.ByteBuffer

/-!
# Checks that index a buffer

A check reads a buffer at positions that may be out of range and gives up at
the first condition that fails.  Its answer is `none` where an index would
panic.  `Decides` says that it does not, and what its answer means; the rules
follow the check from one read or condition to the next.
-/

namespace PicoFi
namespace Buffer

/-- The check gives an answer, and the answer is `true` exactly under `P`. -/
def Decides (check : Option Bool) (P : Prop) : Prop :=
  ∃ b, check = some b ∧ (b = true ↔ P)

namespace Decides

variable {check : Option Bool} {P Q : Prop}

theorem answer {b : Bool} (hiff : b = true ↔ P) : Decides (some b) P := ⟨b, rfl, hiff⟩

theorem guard {c : Prop} [Decidable c] (hbad : c → ¬P) (hrest : ¬c → Decides check P) :
    Decides (if c then some false else check) P := by
  by_cases hc : c
  · exact ⟨false, if_pos hc, by simp [hbad hc]⟩
  · rw [if_neg hc]
    exact hrest hc

theorem read {α : Type*} {value : Option α} {a : α} {next : α → Option Bool}
    (hvalue : value = some a) (hrest : Decides (next a) P) :
    Decides (value.bind next) P := by
  rwa [hvalue]

theorem congr (h : Decides check P) (hiff : P ↔ Q) : Decides check Q := by
  obtain ⟨b, hcheck, hb⟩ := h
  exact ⟨b, hcheck, hb.trans hiff⟩

theorem ne_none (h : Decides check P) : check ≠ none := by
  obtain ⟨b, hcheck, -⟩ := h
  simp [hcheck]

theorem eq_true_iff (h : Decides check P) : check = some true ↔ P := by
  obtain ⟨b, hcheck, hb⟩ := h
  simp [hcheck, hb]

theorem eq_false_iff (h : Decides check P) : check = some false ↔ ¬P := by
  obtain ⟨b, hcheck, hb⟩ := h
  simp [hcheck, ← hb]

end Decides

/-! ## Big-endian words -/

/-- The big-endian word at a position; a missing byte counts as zero. -/
def be16At (bytes : List UInt8) (i : ℕ) : ℕ :=
  (bytes.getD i 0).toNat * 256 + (bytes.getD (i + 1) 0).toNat

theorem be16At_lt (bytes : List UInt8) (i : ℕ) : be16At bytes i < 65536 := by
  have hhigh := (bytes.getD i 0).toNat_lt
  have hlow := (bytes.getD (i + 1) 0).toNat_lt
  unfold be16At
  omega

theorem be16_inj {a b c d : UInt8} :
    a.toNat * 256 + b.toNat = c.toNat * 256 + d.toNat ↔ a = c ∧ b = d := by
  have hb := b.toNat_lt
  have hd := d.toNat_lt
  rw [← UInt8.toNat_inj, ← UInt8.toNat_inj]
  omega

theorem slice_two {bytes : List UInt8} {i : ℕ} (hi : i + 1 < bytes.length) :
    slice bytes i (i + 2) = [bytes.getD i 0, bytes.getD (i + 1) 0] := by
  have hcut : bytes.drop i = bytes[i] :: bytes[i + 1] :: bytes.drop (i + 2) := by
    rw [List.drop_eq_getElem_cons (by omega), List.drop_eq_getElem_cons hi]
  have hhigh : bytes.getD i 0 = bytes[i] := by
    simp [List.getD_eq_getElem?_getD, List.getElem?_eq_getElem (show i < bytes.length by omega)]
  have hlow : bytes.getD (i + 1) 0 = bytes[i + 1] := by
    simp [List.getD_eq_getElem?_getD, List.getElem?_eq_getElem hi]
  rw [slice, List.drop_take, hcut, hhigh, hlow, Nat.add_sub_cancel_left]
  rfl

theorem slice_two_eq_iff {bytes : List UInt8} {i : ℕ} (hi : i + 1 < bytes.length)
    {a b : UInt8} :
    slice bytes i (i + 2) = [a, b] ↔ be16At bytes i = a.toNat * 256 + b.toNat := by
  rw [slice_two hi, be16At, be16_inj]
  simp

/-! ## Windows of a string of parts -/

theorem getD_append_left {front back : List UInt8} {i : ℕ} (hi : i < front.length) :
    (front ++ back).getD i 0 = front.getD i 0 := by
  simp only [List.getD_eq_getElem?_getD, List.getElem?_append_left hi]

theorem be16At_append_left {front back : List UInt8} {i : ℕ} (hi : i + 1 < front.length) :
    be16At (front ++ back) i = be16At front i := by
  rw [be16At, getD_append_left hi, getD_append_left (by omega), be16At]

theorem slice_middle (front middle back : List UInt8) :
    slice (front ++ middle ++ back) front.length (front.length + middle.length) = middle := by
  rw [slice, ← List.length_append, List.take_left, List.drop_left]

theorem slice_append_slice {bytes : List UInt8} {lo mid hi : ℕ} (hlo : lo ≤ mid)
    (hhi : mid ≤ hi) : slice bytes lo mid ++ slice bytes mid hi = slice bytes lo hi := by
  have hwidth : hi - lo = (mid - lo) + (hi - mid) := by omega
  have hmid : lo + (mid - lo) = mid := by omega
  simp only [slice, List.drop_take]
  rw [hwidth, List.take_add, List.drop_drop, hmid]

/-- A string cut at two positions. -/
theorem exists_cut {bytes : List UInt8} {lo hi : ℕ} (hlo : lo ≤ hi)
    (hhi : hi ≤ bytes.length) :
    ∃ front middle back, bytes = front ++ middle ++ back ∧ front.length = lo ∧
      front.length + middle.length = hi := by
  refine ⟨slice bytes 0 lo, slice bytes lo hi, bytes.drop hi, ?_, ?_, ?_⟩
  · rw [slice_append_slice (Nat.zero_le lo) hlo, slice_zero, List.take_append_drop]
  · rw [length_slice (hlo.trans hhi), Nat.sub_zero]
  · rw [length_slice (hlo.trans hhi), length_slice hhi]
    omega

theorem slice_append_left {front back : List UInt8} {start stop : ℕ}
    (hstop : stop ≤ front.length) :
    slice (front ++ back) start stop = slice front start stop := by
  rw [slice, List.take_append_of_le_length hstop, slice]

end Buffer
end PicoFi
