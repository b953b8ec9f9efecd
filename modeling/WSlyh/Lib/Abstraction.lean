import WSlyh.Lib.Transition

/-! One system seen as another: an abstraction of the states, under which each step of the lower
system is no step or one step of the upper one. -/

namespace Lib

variable {σ : Type u} {α : Type v} {τ : Type w} {β : Type x}

/-- A run, and what is seen of its steps. -/
def System.Observed (system : System σ α) (label : σ → α → Option β) : σ → List α → List β → σ → Prop
  | s, [], labels, s' => labels = [] ∧ s = s'
  | s, a :: actions, labels, s' => ∃ between later, system.step s a between ∧
      system.Observed label between actions later s' ∧ labels = (label s a).toList ++ later

/-- Take the steps and note what is seen of them. -/
def System.observe (act : σ → α → Option (Except ε σ)) (label : σ → α → Option β) : σ → List α → Option (List β × σ)
  | s, [] => some ([], s)
  | s, a :: actions => (reached (act s a)).bind fun between =>
    (System.observe act label between actions).map fun seen => ((label s a).toList ++ seen.1, seen.2)

theorem System.Observed.of_observe {system : System σ α} {act : σ → α → Option (Except ε σ)} {label : σ → α → Option β}
    (steps : ∀ s a s', act s a = some (.ok s') → system.step s a s')
    (done : System.observe act label s actions = some (labels, s')) : system.Observed label s actions labels s' := by
  induction actions generalizing s labels with
  | nil =>
    obtain ⟨rfl, rfl⟩ := Prod.mk.inj (Option.some.inj done)
    exact ⟨rfl, rfl⟩
  | cons a actions ih =>
    obtain ⟨between, taken, rest⟩ := Option.bind_eq_some_iff.mp done
    obtain ⟨⟨later, last⟩, seen, same⟩ := Option.map_eq_some_iff.mp rest
    obtain ⟨rfl, rfl⟩ := Prod.mk.inj same
    exact ⟨between, later, steps _ _ _ (of_reached taken), ih seen, rfl⟩

/-- What the lower system shows is something that the upper one can do. -/
structure Abstracts (lower : System σ α) (upper : System τ β) (inv : σ → Prop) (abs : σ → τ)
    (label : σ → α → Option β) : Prop where
  init : ∀ s, lower.init s → inv s ∧ upper.init (abs s)
  keeps : ∀ s a s', inv s → lower.step s a s' → inv s'
  silent : ∀ s a s', inv s → lower.step s a s' → label s a = none → abs s' = abs s
  seen : ∀ s a s' b, inv s → lower.step s a s' → label s a = some b → upper.step (abs s) b (abs s')

namespace Abstracts

variable {lower : System σ α} {upper : System τ β} {inv : σ → Prop} {abs : σ → τ} {label : σ → α → Option β}

theorem run (abstracts : Abstracts lower upper inv abs label) {actions : List α} {labels : List β} {s s' : σ}
    (start : inv s) (observed : lower.Observed label s actions labels s') : upper.Run (abs s) labels (abs s') := by
  induction actions generalizing s labels with
  | nil =>
    obtain ⟨rfl, rfl⟩ := observed
    exact rfl
  | cons a actions ih =>
    obtain ⟨between, later, taken, rest, rfl⟩ := observed
    have onward := ih (abstracts.keeps _ _ _ start taken) rest
    cases shown : label s a with
    | none =>
      rw [abstracts.silent _ _ _ start taken shown] at onward
      exact onward
    | some b => exact ⟨abs between, abstracts.seen _ _ _ _ start taken shown, onward⟩

/-- Every run of the lower system from its start shows a run of the upper one from its start. -/
theorem trace (abstracts : Abstracts lower upper inv abs label) {actions : List α} {labels : List β} {s s' : σ}
    (start : lower.init s) (observed : lower.Observed label s actions labels s') :
    upper.init (abs s) ∧ upper.Run (abs s) labels (abs s') :=
  ⟨(abstracts.init s start).2, abstracts.run (abstracts.init s start).1 observed⟩

end Abstracts

end Lib
