import Mathlib.Logic.Equiv.Basic
import Mathlib.Order.Lattice
import Mathlib.Order.Nat

/-! Binary heaps in an array, with one item on its way up or down. In the order that item
stands at its `hole`, whether or not the array holds it there. -/

namespace Lib

def parent (i : Nat) : Nat := (i - 1) / 2

theorem parent_lt (positive : 0 < i) : parent i < i := by
  unfold parent
  omega

theorem parent_eq_iff (positive : 0 < i) : parent i = hole ↔ i = hole * 2 + 1 ∨ i = hole * 2 + 2 := by
  unfold parent
  omega

section Order

variable [LinearOrder β] (key : α → β) (n : Nat) (slot : Nat → α)

/-- No item comes before the one above it. -/
def HeapOrdered : Prop := ∀ i, 0 < i → i < n → key (slot (parent i)) ≤ key (slot i)

/-- Only the item at the hole may have to go down. -/
structure Sinking (hole : Nat) : Prop where
  ordered : ∀ i, 0 < i → i < n → parent i ≠ hole → key (slot (parent i)) ≤ key (slot i)
  bridged : ∀ i, 0 < i → i < n → parent i = hole → 0 < hole → key (slot (parent hole)) ≤ key (slot i)

/-- Only the item at the hole may have to go up. -/
structure Rising (hole : Nat) : Prop where
  ordered : ∀ i, 0 < i → i < n → i ≠ hole → key (slot (parent i)) ≤ key (slot i)
  bridged : ∀ i, 0 < i → i < n → parent i = hole → 0 < hole → key (slot (parent hole)) ≤ key (slot i)

end Order

/-- An array after two items changed places. -/
def swapped (slot : Nat → α) (i j : Nat) : Nat → α := slot ∘ Equiv.swap i j

section Swap

variable (slot : Nat → α) (i j : Nat)

@[simp] theorem swapped_left : swapped slot i j i = slot j := by simp [swapped]

@[simp] theorem swapped_right : swapped slot i j j = slot i := by simp [swapped]

theorem swapped_other (left : k ≠ i) (right : k ≠ j) : swapped slot i j k = slot k := by
  simp [swapped, Equiv.swap_apply_of_ne_of_ne left right]

theorem exists_swapped (left : i < n) (right : j < n) (item : α) :
    (∃ k < n, swapped slot i j k = item) ↔ ∃ k < n, slot k = item := by
  have inside (k : Nat) (small : k < n) : Equiv.swap i j k < n := by
    rw [Equiv.swap_apply_def]
    split
    · exact right
    · split
      · exact left
      · exact small
  constructor
  · rintro ⟨k, small, found⟩
    exact ⟨_, inside k small, found⟩
  · rintro ⟨k, small, found⟩
    exact ⟨_, inside k small, by simpa [swapped] using found⟩

end Swap

section Sift

variable [LinearOrder β] {key : α → β} {n hole : Nat} {slot : Nat → α}

/-- The root comes first. -/
theorem HeapOrdered.root_le (ordered : HeapOrdered key n slot) (inside : i < n) : key (slot 0) ≤ key (slot i) := by
  induction i using Nat.strongRecOn with
  | ind i ih =>
    rcases Nat.eq_zero_or_pos i with rfl | positive
    · exact le_rfl
    · have above := parent_lt positive
      exact (ih (parent i) above (above.trans inside)).trans (ordered i positive inside)

/-- An item whose key grew may have to go down. -/
theorem HeapOrdered.sinking (ordered : HeapOrdered key n slot) (key' : α → β)
    (same : ∀ i < n, i ≠ hole → key' (slot i) = key (slot i)) (grown : key (slot hole) ≤ key' (slot hole)) :
    Sinking key' n slot hole := by
  have below (i : Nat) (small : i < n) : key (slot i) ≤ key' (slot i) := by
    by_cases here : i = hole
    · rw [here]
      exact grown
    · exact (same i small here).ge
  refine ⟨fun i positive small other => ?_, fun i positive small under inner => ?_⟩
  · have above := parent_lt positive
    rw [same _ (above.trans small) other]
    exact (ordered i positive small).trans (below i small)
  · have above := parent_lt positive
    have higher := parent_lt inner
    have path : key (slot (parent hole)) ≤ key (slot i) := by
      have upper := ordered hole inner (by omega)
      have lower := ordered i positive small
      rw [under] at lower
      exact upper.trans lower
    rw [same _ (by omega) (by omega)]
    exact path.trans (below i small)

/-- The root of a heap can be replaced by any item, if that goes down afterwards. -/
theorem HeapOrdered.replaceRoot (ordered : HeapOrdered key (n + 1) slot) (slot' : Nat → α)
    (same : ∀ i < n, i ≠ 0 → slot' i = slot i) : Sinking key n slot' 0 := by
  refine ⟨fun i positive small other => ?_, fun i positive small under inner => absurd inner (lt_irrefl 0)⟩
  have above := parent_lt positive
  rw [same _ (above.trans small) other, same i small (by omega)]
  exact ordered i positive (by omega)

/-- The smaller child takes the place of the item above it. -/
theorem Sinking.down (sinking : Sinking key n slot hole) (positive : 0 < child) (under : parent child = hole)
    (smaller : ∀ i, 0 < i → i < n → parent i = hole → key (slot child) ≤ key (slot i)) (inside : child < n)
    (less : key (slot child) ≤ key (slot hole)) : Sinking key n (swapped slot hole child) child := by
  have above := parent_lt positive
  refine ⟨fun i here small other => ?_, fun i here small below _ => ?_⟩
  · have higher := parent_lt here
    by_cases atHole : i = hole
    · subst atHole
      rw [swapped_left, swapped_other _ _ _ (by omega) (by omega)]
      exact sinking.bridged child positive inside under here
    by_cases atChild : i = child
    · subst atChild
      rw [swapped_right, under, swapped_left]
      exact less
    rw [swapped_other _ _ _ atHole atChild]
    by_cases sibling : parent i = hole
    · rw [sibling, swapped_left]
      exact smaller i here small sibling
    · rw [swapped_other _ _ _ sibling other]
      exact sinking.ordered i here small sibling
  · have higher := parent_lt here
    rw [under, swapped_left, swapped_other _ _ _ (by omega) (by omega), ← below]
    exact sinking.ordered i here small (by omega)

theorem Sinking.stop (sinking : Sinking key n slot hole)
    (fits : ∀ i, 0 < i → i < n → parent i = hole → key (slot hole) ≤ key (slot i)) : HeapOrdered key n slot := by
  intro i positive small
  by_cases under : parent i = hole
  · rw [under]
    exact fits i positive small under
  · exact sinking.ordered i positive small under

/-- A heap with an item added behind the last one. -/
theorem HeapOrdered.rising (ordered : HeapOrdered key n slot) (slot' : Nat → α)
    (same : ∀ i < n, slot' i = slot i) : Rising key (n + 1) slot' n := by
  refine ⟨fun i positive small other => ?_, fun i positive small under _ => ?_⟩
  · have above := parent_lt positive
    rw [same _ (by omega), same i (by omega)]
    exact ordered i positive (by omega)
  · have above := parent_lt positive
    omega

/-- The item changes places with the one above it. -/
theorem Rising.up (rising : Rising key n slot hole) (inner : 0 < hole) (inside : hole < n)
    (less : key (slot hole) ≤ key (slot (parent hole))) :
    Rising key n (swapped slot hole (parent hole)) (parent hole) := by
  have above := parent_lt inner
  refine ⟨fun i here small other => ?_, fun i here small below positive => ?_⟩
  · have higher := parent_lt here
    by_cases atHole : i = hole
    · subst atHole
      rw [swapped_left, swapped_right]
      exact less
    rw [swapped_other _ _ _ atHole other]
    by_cases child : parent i = hole
    · rw [child, swapped_left]
      exact rising.bridged i here small child inner
    have ordered := rising.ordered i here small atHole
    by_cases sibling : parent i = parent hole
    · rw [sibling, swapped_right]
      rw [sibling] at ordered
      exact less.trans ordered
    · rw [swapped_other _ _ _ child sibling]
      exact ordered
  · have higher := parent_lt positive
    have upper := rising.ordered (parent hole) positive (by omega) (by omega)
    rw [swapped_other _ _ _ (by omega) (by omega)]
    by_cases atHole : i = hole
    · subst atHole
      rw [swapped_left]
      exact upper
    · have lower := rising.ordered i here small atHole
      have deeper := parent_lt here
      rw [swapped_other _ _ _ atHole (by omega)]
      rw [below] at lower
      exact upper.trans lower

theorem Rising.stop (rising : Rising key n slot hole)
    (fits : 0 < hole → key (slot (parent hole)) ≤ key (slot hole)) : HeapOrdered key n slot := by
  intro i positive small
  by_cases atHole : i = hole
  · subst atHole
    exact fits positive
  · exact rising.ordered i positive small atHole

end Sift

end Lib
