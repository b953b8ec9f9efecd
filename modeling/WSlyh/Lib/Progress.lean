import Mathlib.Algebra.BigOperators.Group.Finset.Basic
import WSlyh.Lib.Transition

/-! Runs that come to an end: every step uses up some of a measure, and where no step is left
the work is done. -/

namespace Lib

/-- One of the terms of a sum has changed. -/
theorem sum_update {ι A : Type} [DecidableEq ι] {of : Finset ι} (f : ι → A) {i : ι} (member : i ∈ of) (a : A)
    (weight : A → Nat) :
    ∑ j ∈ of, weight (Function.update f i a j) + weight (f i) = ∑ j ∈ of, weight (f j) + weight a := by
  have others : ∑ j ∈ of.erase i, weight (Function.update f i a j) = ∑ j ∈ of.erase i, weight (f j) := by
    apply Finset.sum_congr rfl
    intro j apart
    rw [Function.update_of_ne (Finset.ne_of_mem_erase apart)]
  rw [← Finset.add_sum_erase _ _ member, ← Finset.add_sum_erase _ (fun j => weight (f j)) member, others,
    Function.update_self]
  omega

variable {σ : Type u} {α : Type v}

namespace System

/-- The same system with some of its steps left out. -/
def only (system : System σ α) (allowed : σ → α → Prop) : System σ α where
  init := system.init
  step s a s' := allowed s a ∧ system.step s a s'

def AtRest (system : System σ α) (s : σ) : Prop := ∀ a s', ¬ system.step s a s'

/-- Whatever steps are taken from here, there are no more than `bound` of them, and where none is
left the goal is reached. -/
structure Settles (system : System σ α) (s : σ) (bound : Nat) (goal : σ → Prop) : Prop where
  bounded : ∀ actions s', system.Run s actions s' → actions.length ≤ bound
  ends : ∀ actions s', system.Run s actions s' → system.AtRest s' → goal s'

/-- A state of rank `n` has no more than `n` steps left: each of them lowers the rank. -/
def Winds (system : System σ α) (rank : σ → Nat → Prop) : Prop :=
  ∀ s a s' n, rank s n → system.step s a s' → ∃ m < n, rank s' m

variable {system : System σ α} {rank : σ → Nat → Prop} {goal : σ → Prop} {s : σ}

theorem Settles.weaken (settles : system.Settles s bound goal) (le : bound ≤ bound') : system.Settles s bound' goal :=
  ⟨fun actions s' run => (settles.bounded actions s' run).trans le, settles.ends⟩

theorem Winds.run (winds : system.Winds rank) {actions : List α} {s' : σ} {n : Nat} (start : rank s n)
    (run : system.Run s actions s') : ∃ m, actions.length + m ≤ n ∧ rank s' m := by
  induction actions generalizing s n with
  | nil =>
    cases run
    exact ⟨n, Nat.le_of_eq (Nat.zero_add _), start⟩
  | cons a actions ih =>
    obtain ⟨between, taken, rest⟩ := run
    obtain ⟨m, less, after⟩ := winds _ _ _ _ start taken
    obtain ⟨last, spent, ranked⟩ := ih after rest
    refine ⟨last, ?_, ranked⟩
    rw [List.length_cons]
    omega

theorem Winds.settles (winds : system.Winds rank) (done : ∀ s n, rank s n → system.AtRest s → goal s)
    {n : Nat} (start : rank s n) : system.Settles s n goal := by
  constructor
  · intro actions s' run
    obtain ⟨m, spent, _⟩ := winds.run start run
    omega
  · intro actions s' run rest
    obtain ⟨m, _, ranked⟩ := winds.run start run
    exact done s' m ranked rest

end System

end Lib
