import Mathlib.Tactic

/-!
# Checksums

Two families.  A fold whose step is injective in its state and in its byte
never forgets a single changed byte.  A one's-complement sum of 16-bit words
is fixed modulo 65535, so a byte that changes moves it by less than the
modulus can hide.
-/

namespace PicoFi
namespace Checksums

/-! ## Folds of injective steps -/

variable {σ α : Type*} {step : σ → α → σ}

theorem foldl_injective (hstate : ∀ a, Function.Injective fun s => step s a)
    (items : List α) : Function.Injective fun s => items.foldl step s := by
  induction items with
  | nil => exact Function.injective_id
  | cons a items ih => exact ih.comp (hstate a)

/-- The states after the changed item differ, and stay apart from there on. -/
theorem foldl_set_ne (hstate : ∀ a, Function.Injective fun s => step s a)
    (hitem : ∀ s, Function.Injective (step s)) {items : List α} {i : ℕ} {b : α}
    (hi : i < items.length) (hb : b ≠ items[i]) (s : σ) :
    (items.set i b).foldl step s ≠ items.foldl step s := by
  induction items generalizing s i with
  | nil => simp at hi
  | cons a items ih =>
      cases i with
      | zero => exact (foldl_injective hstate items).ne ((hitem s).ne hb)
      | succ i =>
          simp only [List.length_cons, Nat.add_lt_add_iff_right] at hi
          exact ih hi hb (step s a)

/-! ## One's-complement sums -/

/-- The big-endian words of a byte string; an odd last byte is a high half. -/
def words : List UInt8 → List ℕ
  | a :: b :: bytes => (a.toNat * 256 + b.toNat) :: words bytes
  | [last] => [last.toNat * 256]
  | [] => []

/-- 16-bit addition with the carry brought round to the low end. -/
def onesAdd (a b : ℕ) : ℕ := if 0xffff < a + b then a + b - 0xffff else a + b

def onesSum (terms : List ℕ) : ℕ := terms.foldl onesAdd 0

theorem words_append {front back : List UInt8} (heven : front.length % 2 = 0) :
    words (front ++ back) = words front ++ words back := by
  induction front using words.induct with
  | case1 a b front ih =>
      have hrest : front.length % 2 = 0 := by
        simp only [List.length_cons] at heven
        omega
      simp only [List.cons_append, words, ih hrest]
  | case2 last => simp at heven
  | case3 => rfl

theorem word_le {a b : UInt8} : a.toNat * 256 + b.toNat ≤ 0xffff := by
  have ha := a.toNat_lt
  have hb := b.toNat_lt
  omega

theorem le_of_mem_words {bytes : List UInt8} {w : ℕ} (hw : w ∈ words bytes) :
    w ≤ 0xffff := by
  induction bytes using words.induct with
  | case1 a b bytes ih =>
      rcases List.mem_cons.mp hw with rfl | hw
      · exact word_le
      · exact ih hw
  | case2 last =>
      have hlast := last.toNat_lt
      rw [words, List.mem_singleton] at hw
      omega
  | case3 => simp [words] at hw

/-- What is known of an accumulator that has summed up to `total`: it fits 16
bits, agrees with `total` modulo 65535, and is zero exactly at zero. -/
structure Folded (total value : ℕ) : Prop where
  le : value ≤ 0xffff
  mod_eq : value % 65535 = total % 65535
  eq_zero : value = 0 ↔ total = 0

theorem Folded.eq_full_iff {total value : ℕ} (h : Folded total value) :
    value = 0xffff ↔ 0 < total ∧ 65535 ∣ total := by
  obtain ⟨hle, hmod, hzero⟩ := h
  omega

theorem Folded.onesAdd {total value w : ℕ} (h : Folded total value)
    (hw : w ≤ 0xffff) : Folded (total + w) (onesAdd value w) := by
  obtain ⟨hle, hmod, hzero⟩ := h
  constructor <;> unfold Checksums.onesAdd <;> split <;> omega

theorem folded_onesSum {terms : List ℕ} (hterms : ∀ w ∈ terms, w ≤ 0xffff) :
    Folded terms.sum (onesSum terms) := by
  have hrun : ∀ total value, Folded total value →
      Folded (total + terms.sum) (terms.foldl onesAdd value) := by
    induction terms with
    | nil => exact fun total value h => h
    | cons w terms ih =>
        intro total value h
        have hw := hterms w List.mem_cons_self
        have hrest := ih (fun v hv => hterms v (List.mem_cons_of_mem w hv))
          (total + w) (onesAdd value w) (h.onesAdd hw)
        rwa [List.sum_cons, ← Nat.add_assoc]
  have hall := hrun 0 0 ⟨by omega, rfl, Iff.rfl⟩
  rwa [Nat.zero_add] at hall

/-- Bringing the carries round all at once. -/
theorem carried_mod (value : ℕ) :
    (value % 65536 + value / 65536) % 65535 = value % 65535 := by
  omega

/-! ## A changed byte -/

/-- The weight of a byte in its word. -/
def byteWeight (i : ℕ) : ℕ := if i % 2 = 0 then 256 else 1

theorem byteWeight_add_two (i : ℕ) : byteWeight (i + 2) = byteWeight i := by
  simp [byteWeight]

theorem sum_words_set {bytes : List UInt8} {i : ℕ} (hi : i < bytes.length)
    (b : UInt8) :
    (words (bytes.set i b)).sum + byteWeight i * bytes[i].toNat =
      (words bytes).sum + byteWeight i * b.toNat := by
  induction bytes using words.induct generalizing i with
  | case1 x y bytes ih =>
      match i with
      | 0 => simp [words, byteWeight]; omega
      | 1 => simp [words, byteWeight]; omega
      | i + 2 =>
          have hrest := @ih i (by simpa using hi)
          simp only [List.set_cons_succ, words, List.sum_cons, byteWeight_add_two,
            List.getElem_cons_succ]
          omega
  | case2 last =>
      obtain rfl : i = 0 := by simpa using hi
      simp [words, byteWeight]
      omega
  | case3 => simp at hi

/-- No single byte can change and leave the sum a multiple of 65535. -/
theorem not_dvd_of_set {bytes : List UInt8} {i : ℕ} {b : UInt8} {rest : ℕ}
    (hi : i < bytes.length) (hb : b ≠ bytes[i])
    (hsum : 65535 ∣ rest + (words bytes).sum) :
    ¬65535 ∣ rest + (words (bytes.set i b)).sum := by
  have hset := sum_words_set hi b
  have hbyte := b.toNat_lt
  have hold := bytes[i].toNat_lt
  have hne : b.toNat ≠ bytes[i].toNat := fun h => hb (UInt8.toNat_inj.mp h)
  unfold byteWeight at hset
  split at hset <;> omega

end Checksums
end PicoFi
