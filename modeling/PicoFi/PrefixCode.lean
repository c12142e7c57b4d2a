import Mathlib.Tactic

/-!
# Codes that end by themselves

Where the encoding of one item never continues the encoding of another, a
stream of encodings can be cut in one way only: a stream that begins with the
encodings of some items and is a prefix of those of others begins with the same
items.
-/

namespace PicoFi

variable {α β : Type*}

/-- Among the items that fit, an encoding with anything behind it tells the
item and what is behind it. -/
structure PrefixCode (encode : α → List β) (Fits : α → Prop) : Prop where
  nonempty : ∀ x, encode x ≠ []
  cut : ∀ {x y : α} {back rest : List β}, Fits x → Fits y →
    encode x ++ back <+: encode y ++ rest → x = y ∧ back <+: rest

namespace PrefixCode

variable {encode : α → List β} {Fits : α → Prop}

/-- The items of the shorter stream are the first ones of the longer, and what
is behind them is the beginning of the encodings of the others. -/
theorem exists_rest (hcode : PrefixCode encode Fits) {xs ys : List α}
    {tail : List β} (hxs : ∀ x ∈ xs, Fits x) (hys : ∀ y ∈ ys, Fits y)
    (hbegin : xs.flatMap encode ++ tail <+: ys.flatMap encode) :
    ∃ rest, ys = xs ++ rest ∧ tail <+: rest.flatMap encode := by
  induction xs generalizing ys with
  | nil => exact ⟨ys, rfl, hbegin⟩
  | cons x xs ih =>
      cases ys with
      | nil =>
          rw [List.flatMap_cons, List.flatMap_nil, List.prefix_nil,
            List.append_assoc, List.append_eq_nil_iff] at hbegin
          exact absurd hbegin.1 (hcode.nonempty x)
      | cons y ys =>
          rw [List.flatMap_cons, List.flatMap_cons, List.append_assoc] at hbegin
          obtain ⟨rfl, hback⟩ := hcode.cut (hxs x (by simp)) (hys y (by simp)) hbegin
          obtain ⟨rest, rfl, htail⟩ :=
            ih (fun x hx => hxs x (List.mem_cons_of_mem _ hx))
              (fun y hy => hys y (List.mem_cons_of_mem _ hy)) hback
          exact ⟨rest, rfl, htail⟩

theorem items_prefix (hcode : PrefixCode encode Fits) {xs ys : List α}
    {tail : List β} (hxs : ∀ x ∈ xs, Fits x) (hys : ∀ y ∈ ys, Fits y)
    (hbegin : xs.flatMap encode ++ tail <+: ys.flatMap encode) : xs <+: ys := by
  obtain ⟨rest, rfl, -⟩ := hcode.exists_rest hxs hys hbegin
  exact List.prefix_append _ _

end PrefixCode
end PicoFi
