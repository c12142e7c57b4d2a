import Mathlib.Data.List.Basic

/-!
# A running minimum

A fold holds one element and takes the next only when its key is smaller.  It
ends with an element of least key, whatever the order of the list; where equal
keys mean equal elements, it ends with the same one.
-/

namespace PicoFi
namespace RunningMin

variable {α κ : Type*} {key : α → κ}

section Step

variable [LT κ] [DecidableLT κ]

def keep (key : α → κ) (best : Option α) (a : α) : Option α :=
  if best.all fun held => key a < key held then some a else best

theorem keep_none (a : α) : keep key none a = some a := rfl

theorem keep_some_of_lt {held a : α} (h : key a < key held) :
    keep key (some held) a = some a := by
  rw [keep, Option.all_some, if_pos (decide_eq_true h)]

theorem keep_some_of_not_lt {held a : α} (h : ¬key a < key held) :
    keep key (some held) a = some held := by
  rw [keep, Option.all_some, if_neg (by rw [decide_eq_true_eq]; exact h)]

end Step

section Least

variable [LE κ]

structure Least (key : α → κ) (list : List α) (a : α) : Prop where
  mem : a ∈ list
  le : ∀ b ∈ list, key a ≤ key b

theorem Least.key_eq [Std.IsLinearOrder κ] {list list' : List α} {a b : α}
    (ha : Least key list a) (hb : Least key list' b)
    (hmem : ∀ c, c ∈ list ↔ c ∈ list') : key a = key b :=
  Std.le_antisymm (ha.le b ((hmem b).mpr hb.mem)) (hb.le a ((hmem a).mp ha.mem))

end Least

variable [LE κ] [LT κ] [DecidableLT κ] [Std.IsLinearOrder κ] [Std.LawfulOrderLT κ]

/-- The element held is the least of those seen. -/
theorem foldl_keep_some (held : α) (list : List α) :
    ∃ a, list.foldl (keep key) (some held) = some a ∧ Least key (held :: list) a := by
  induction list generalizing held with
  | nil => exact ⟨held, rfl, List.mem_singleton_self held, by simp [Std.le_refl]⟩
  | cons next list ih =>
      rw [List.foldl_cons]
      by_cases hless : key next < key held
      · rw [keep_some_of_lt hless]
        obtain ⟨a, hfold, hleast⟩ := ih next
        refine ⟨a, hfold, List.mem_cons_of_mem held hleast.mem, ?_⟩
        intro b hb
        rcases List.mem_cons.mp hb with rfl | hrest
        · exact Std.le_trans (hleast.le next List.mem_cons_self) (Std.le_of_lt hless)
        · exact hleast.le b hrest
      · rw [keep_some_of_not_lt hless]
        obtain ⟨a, hfold, hleast⟩ := ih held
        have hheld : key held ≤ key next := Std.not_lt.mp hless
        refine ⟨a, hfold, ?_, ?_⟩
        · rcases List.mem_cons.mp hleast.mem with rfl | hrest
          · exact List.mem_cons_self
          · exact List.mem_cons_of_mem held (List.mem_cons_of_mem next hrest)
        · intro b hb
          rcases List.mem_cons.mp hb with rfl | hrest
          · exact hleast.le b List.mem_cons_self
          · rcases List.mem_cons.mp hrest with rfl | hlater
            · exact Std.le_trans (hleast.le held List.mem_cons_self) hheld
            · exact hleast.le b (List.mem_cons_of_mem held hlater)

theorem foldl_keep_none {list : List α} (h : list.foldl (keep key) none = none) :
    list = [] := by
  cases list with
  | nil => rfl
  | cons a list =>
      rw [List.foldl_cons, keep_none] at h
      obtain ⟨b, hfold, -⟩ := @foldl_keep_some _ _ key _ _ _ _ _ a list
      rw [hfold] at h
      contradiction

theorem least_of_foldl_keep {list : List α} {a : α}
    (h : list.foldl (keep key) none = some a) : Least key list a := by
  cases list with
  | nil => contradiction
  | cons first list =>
      rw [List.foldl_cons, keep_none] at h
      obtain ⟨b, hfold, hleast⟩ := @foldl_keep_some _ _ key _ _ _ _ _ first list
      rw [hfold] at h
      rwa [← Option.some.inj h]

/-- The order of the list, and how often it repeats an element, does not matter. -/
theorem foldl_keep_congr {list list' : List α} (hmem : ∀ a, a ∈ list ↔ a ∈ list')
    (hkey : ∀ a ∈ list, ∀ b ∈ list, key a = key b → a = b) :
    list.foldl (keep key) none = list'.foldl (keep key) none := by
  cases hfold : list.foldl (keep key) none with
  | none =>
      obtain rfl := foldl_keep_none hfold
      have hempty : list' = [] := List.eq_nil_iff_forall_not_mem.mpr fun a ha =>
        List.not_mem_nil ((hmem a).mpr ha)
      rw [hempty]
      rfl
  | some a =>
      have ha := least_of_foldl_keep hfold
      cases hfold' : list'.foldl (keep key) none with
      | none =>
          rw [foldl_keep_none hfold'] at hmem
          exact absurd ((hmem a).mp ha.mem) List.not_mem_nil
      | some b =>
          have hb := least_of_foldl_keep hfold'
          rw [hkey a ha.mem b ((hmem b).mpr hb.mem) (ha.key_eq hb hmem)]

end RunningMin
end PicoFi
