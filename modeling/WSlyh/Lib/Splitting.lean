import Mathlib.Logic.Function.Basic

/-! Renderings that tell where they end: what was rendered, and what stands behind it, are read off the text in one
way only. A grammar whose parts do so is unambiguous. -/

namespace Lib

variable {α : Type u} {β : Type v} {γ : Type w} {σ : Type x}

/-- Where only what `follows` admits stands behind a rendering, there is one way to cut it off. -/
def Splits (follows : List σ → Prop) (render : α → List σ) : Prop :=
  ∀ ⦃a b : α⦄ ⦃s t : List σ⦄, follows s → follows t → render a ++ s = render b ++ t → a = b ∧ s = t

namespace Splits

variable {first : α → List σ} {second : β → List σ} {item : α → List σ} {follows behind : List σ → Prop}

/-- One thing after another. -/
theorem pair (one : Splits follows first) (other : Splits behind second)
    (hands : ∀ b s, behind s → follows (second b ++ s)) :
    Splits behind fun both : α × β => first both.1 ++ second both.2 := by
  rintro ⟨a, b⟩ ⟨a', b'⟩ s t ends ends' same
  rw [List.append_assoc, List.append_assoc] at same
  obtain ⟨rfl, onward⟩ := one (hands b s ends) (hands b' t ends') same
  obtain ⟨rfl, rest⟩ := other ends ends' onward
  exact ⟨rfl, rest⟩

/-- A mark behind the thing. -/
theorem marked (one : Splits follows item) (mark : List σ) (hands : ∀ s, behind s → follows (mark ++ s)) :
    Splits behind fun a => item a ++ mark := by
  intro a b s t ends ends' same
  rw [List.append_assoc, List.append_assoc] at same
  obtain ⟨equal, rest⟩ := one (hands s ends) (hands t ends') same
  exact ⟨equal, List.append_cancel_left rest⟩

/-- A mark before it. -/
theorem led (one : Splits follows item) (mark : List σ) : Splits follows fun a => mark ++ item a := by
  intro a b s t ends ends' same
  rw [List.append_assoc, List.append_assoc] at same
  exact one ends ends' (List.append_cancel_left same)

theorem comap (one : Splits follows item) (parts : γ → α) (injective : Function.Injective parts) :
    Splits follows fun c => item (parts c) := by
  intro c d s t ends ends' same
  obtain ⟨equal, rest⟩ := one ends ends' same
  exact ⟨injective equal, rest⟩

/-- Any number of things in a row, where the end of the row does not look like one more of them. -/
theorem many (one : Splits follows item) (more : ∀ a s, follows (item a ++ s)) (last : ∀ s, behind s → follows s)
    (starts : ∀ a s, ¬ behind (item a ++ s)) : Splits behind fun row : List α => row.flatMap item := by
  intro row row' s t ends ends' same
  have goes (others : List α) {u : List σ} (end_ : behind u) : follows (others.flatMap item ++ u) := by
    cases others with
    | nil => exact last u end_
    | cons a others =>
      rw [List.flatMap_cons, List.append_assoc]
      exact more a _
  dsimp only at same
  induction row generalizing row' with
  | nil =>
    cases row' with
    | nil => exact ⟨rfl, same⟩
    | cons b row' =>
      rw [List.flatMap_nil, List.nil_append, List.flatMap_cons, List.append_assoc] at same
      rw [same] at ends
      exact absurd ends (starts b _)
  | cons a row ih =>
    cases row' with
    | nil =>
      rw [List.flatMap_nil, List.nil_append, List.flatMap_cons, List.append_assoc] at same
      rw [← same] at ends'
      exact absurd ends' (starts a _)
    | cons b row' =>
      rw [List.flatMap_cons, List.flatMap_cons, List.append_assoc, List.append_assoc] at same
      obtain ⟨rfl, onward⟩ := one (goes row ends) (goes row' ends') same
      obtain ⟨rfl, rest⟩ := ih onward
      exact ⟨rfl, rest⟩

end Splits

end Lib
