import Mathlib.Data.Finset.Card
import Mathlib.Data.Finset.Image
import Mathlib.Data.Finset.Range
import Mathlib.Data.Nat.Find
import Mathlib.Order.Bounds.Defs

/-! Numbers that are handed out from below: always the lowest one that is not in use. -/

namespace Lib

def Lowest (used : Finset Int) (n : Int) : Prop := IsLeast {k | 0 ≤ k ∧ k ∉ used} n

theorem exists_lowest (used : Finset Int) : ∃ n, Lowest used n := by
  have some_ : ∃ n : Nat, (n : Int) ∉ used := by
    obtain ⟨n, small⟩ := Finset.exists_nat_subset_range (used.image Int.toNat)
    refine ⟨n, fun member => ?_⟩
    have less := Finset.mem_range.mp (small (Finset.mem_image_of_mem Int.toNat member))
    exact Nat.lt_irrefl n less
  refine ⟨Nat.find some_, ⟨Int.natCast_nonneg _, Nat.find_spec some_⟩, ?_⟩
  rintro k ⟨nonneg, unused⟩
  rw [← Int.toNat_of_nonneg nonneg] at unused
  have least := Nat.find_min' some_ unused
  omega

/-- The numbers from 0 on that lie below a bound. -/
def below (bound : Int) : Finset Int := (Finset.range bound.toNat).image Int.ofNat

theorem mem_below {k bound : Int} : k ∈ below bound ↔ 0 ≤ k ∧ k < bound := by
  rw [below, Finset.mem_image]
  constructor
  · rintro ⟨n, member, rfl⟩
    have small := Finset.mem_range.mp member
    exact ⟨Int.natCast_nonneg n, Int.lt_toNat.mp small⟩
  · rintro ⟨nonneg, small⟩
    exact ⟨k.toNat, Finset.mem_range.mpr (by omega), Int.toNat_of_nonneg nonneg⟩

theorem card_below (bound : Int) : (below bound).card = bound.toNat := by
  rw [below, Finset.card_image_of_injective _ fun _ _ => Int.ofNat.inj, Finset.card_range]

variable {used : Finset Int} {n : Int}

/-- The lowest number lies below a bound just when not all numbers below it are in use. -/
theorem Lowest.lt_iff (lowest : Lowest used n) (bound : Int) :
    n < bound ↔ ((used.filter fun k => 0 ≤ k ∧ k < bound).card : Int) < bound := by
  obtain ⟨⟨nonneg, unused⟩, least⟩ := lowest
  have size := card_below bound
  have within : (used.filter fun k => 0 ≤ k ∧ k < bound) ⊆ below bound := by
    intro k member
    exact mem_below.mpr (Finset.mem_filter.mp member).2
  constructor
  · intro small
    have missing : n ∉ used.filter fun k => 0 ≤ k ∧ k < bound := fun member => unused (Finset.mem_filter.mp member).1
    have strict := (Finset.ssubset_iff_of_subset within).mpr ⟨n, mem_below.mpr ⟨nonneg, small⟩, missing⟩
    have fewer := Finset.card_lt_card strict
    omega
  · intro fewer
    have less : (used.filter fun k => 0 ≤ k ∧ k < bound).card < (below bound).card := by omega
    obtain ⟨k, inside, missing⟩ := Finset.exists_mem_notMem_of_card_lt_card less
    have range := mem_below.mp inside
    have free : k ∉ used := fun member => missing (Finset.mem_filter.mpr ⟨member, range⟩)
    exact Int.lt_of_le_of_lt (least ⟨range.1, free⟩) range.2

end Lib
