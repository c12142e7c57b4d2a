import Mathlib.Tactic

/-!
# Bounded first-in first-out queues

A queue of weighted items under two bounds, one on the number of items and
one on their total weight.  A new item is either refused or, under the lossy
policy, makes room for itself by dropping the oldest items, and no more of
them than it needs.
-/

namespace PicoFi
namespace Fifo

variable {α : Type*}

structure Limits where
  count : ℕ
  weight : ℕ

def load (weight : α → ℕ) (items : List α) : ℕ :=
  (items.map weight).sum

section Policies

variable (weight : α → ℕ) (limits : Limits)

/-- The item has weight, a place is free and the weight fits. -/
def Admits (items : List α) (item : α) : Prop :=
  0 < weight item ∧ items.length < limits.count ∧
    load weight items + weight item ≤ limits.weight

instance (items : List α) (item : α) :
    Decidable (Admits weight limits items item) :=
  inferInstanceAs (Decidable (_ ∧ _ ∧ _))

def Storable (item : α) : Prop :=
  0 < weight item ∧ weight item ≤ limits.weight ∧ 0 < limits.count

instance (item : α) : Decidable (Storable weight limits item) :=
  inferInstanceAs (Decidable (_ ∧ _ ∧ _))

structure Bounded (items : List α) : Prop where
  positive : ∀ item ∈ items, 0 < weight item
  count_le : items.length ≤ limits.count
  load_le : load weight items ≤ limits.weight

def push (items : List α) (item : α) : List α × Bool :=
  if Admits weight limits items item then (items ++ [item], true)
  else (items, false)

variable {weight limits} in
theorem Storable.exists_admits {item : α}
    (hstorable : Storable weight limits item) (items : List α) :
    ∃ k, Admits weight limits (items.drop k) item := by
  refine ⟨items.length, hstorable.1, ?_, ?_⟩
  · simpa using hstorable.2.2
  · simpa [load] using hstorable.2.1

/-- The length of the shortest prefix whose removal makes the item fit. -/
def evictions (items : List α) (item : α)
    (hstorable : Storable weight limits item) : ℕ :=
  Nat.find (hstorable.exists_admits items)

/-- Drop the shortest prefix that makes the item fit, then append it.  An
item that could not be stored even in an empty queue changes nothing. -/
def overwrite (items : List α) (item : α) : List α × Bool :=
  if hstorable : Storable weight limits item then
    (items.drop (evictions weight limits items item hstorable) ++ [item], true)
  else (items, false)

def pop : List α → List α × Option α
  | [] => ([], none)
  | item :: items => (items, some item)

end Policies

variable {weight : α → ℕ} {limits : Limits} {items : List α} {item : α}

@[simp] theorem load_nil : load weight ([] : List α) = 0 := rfl

@[simp] theorem load_cons :
    load weight (item :: items) = weight item + load weight items := by
  simp [load]

@[simp] theorem load_append (front back : List α) :
    load weight (front ++ back) = load weight front + load weight back := by
  simp [load]

theorem bounded_nil : Bounded weight limits ([] : List α) := by
  constructor <;> simp

theorem Bounded.tail (hbounded : Bounded weight limits (item :: items)) :
    Bounded weight limits items := by
  have hcount := hbounded.count_le
  have hload := hbounded.load_le
  rw [List.length_cons] at hcount
  rw [load_cons] at hload
  exact ⟨fun other hmem => hbounded.positive other (List.mem_cons_of_mem _ hmem),
    by omega, by omega⟩

theorem Bounded.append (hbounded : Bounded weight limits items)
    (hadmits : Admits weight limits items item) :
    Bounded weight limits (items ++ [item]) := by
  obtain ⟨hpos, hcount, hload⟩ := hadmits
  refine ⟨?_, by simpa using hcount, by simpa using hload⟩
  intro other hmem
  rcases List.mem_append.mp hmem with hold | hnew
  · exact hbounded.positive other hold
  · rw [List.mem_singleton.mp hnew]
    exact hpos

theorem admits_evictions (hstorable : Storable weight limits item) :
    Admits weight limits
      (items.drop (evictions weight limits items item hstorable)) item :=
  Nat.find_spec (hstorable.exists_admits items)

/-- A prefix is the shortest one that makes room as soon as it makes room
and no shorter one does. -/
theorem evictions_eq (items : List α) {k : ℕ}
    (hstorable : Storable weight limits item)
    (hadmits : Admits weight limits (items.drop k) item)
    (hleast : ∀ j < k, ¬Admits weight limits (items.drop j) item) :
    evictions weight limits items item hstorable = k :=
  (Nat.find_eq_iff _).mpr ⟨hadmits, hleast⟩

theorem Admits.tail (hadmits : Admits weight limits items item) :
    Admits weight limits items.tail item := by
  cases items with
  | nil => exact hadmits
  | cons oldest items =>
      obtain ⟨hpos, hcount, hload⟩ := hadmits
      rw [List.length_cons] at hcount
      rw [load_cons] at hload
      refine ⟨hpos, ?_, ?_⟩
      · rw [List.tail_cons]
        omega
      · rw [List.tail_cons]
        omega

/-- What is left was there before, in the same order. -/
theorem overwrite_sublist (items : List α) (item : α) :
    List.Sublist (overwrite weight limits items item).1 (items ++ [item]) := by
  unfold overwrite
  split
  next hstorable => exact (List.drop_sublist _ _).append_right _
  next => exact List.sublist_append_left _ _

/-! ## Renaming the items -/

section Map

variable {β : Type*} (f : β → α) (limits : Limits)

@[simp] theorem load_map (items : List β) :
    load weight (items.map f) = load (fun item => weight (f item)) items := by
  simp [load, Function.comp_def]

theorem admits_map (items : List β) (item : β) :
    Admits weight limits (items.map f) (f item) ↔
      Admits (fun item => weight (f item)) limits items item := by
  simp [Admits]

theorem push_map (items : List β) (item : β) :
    push weight limits (items.map f) (f item) =
      ((push (fun item => weight (f item)) limits items item).1.map f,
        (push (fun item => weight (f item)) limits items item).2) := by
  unfold push
  simp only [admits_map]
  by_cases hadmits : Admits (fun item => weight (f item)) limits items item
  · simp [hadmits]
  · simp [hadmits]

theorem overwrite_map (items : List β) (item : β) :
    overwrite weight limits (items.map f) (f item) =
      ((overwrite (fun item => weight (f item)) limits items item).1.map f,
        (overwrite (fun item => weight (f item)) limits items item).2) := by
  by_cases hstorable : Storable weight limits (f item)
  · have hstorable' : Storable (fun item => weight (f item)) limits item :=
      hstorable
    have hcount :
        evictions weight limits (items.map f) (f item) hstorable =
          evictions (fun item => weight (f item)) limits items item
            hstorable' := by
      apply evictions_eq
      · rw [← List.map_drop, admits_map]
        exact admits_evictions hstorable'
      · intro j hj
        rw [← List.map_drop, admits_map]
        exact Nat.find_min (hstorable'.exists_admits items) hj
    simp [overwrite, hstorable, hstorable', hcount]
  · have hstorable' : ¬Storable (fun item => weight (f item)) limits item :=
      hstorable
    simp [overwrite, hstorable, hstorable']

end Map

end Fifo
end PicoFi
