/-! Transition systems with labelled steps, and invariants of their runs. A step may be a computation
that fails, and is taken apart at each bind. -/

namespace Lib

theorem ok_bind {ε : Type u} {α β : Type v} (a : α) (f : α → Except ε β) : (Except.ok a >>= f) = f a := rfl

theorem bind_eq_ok {ε : Type u} {α β : Type v} {b : β} {x : Except ε α} {f : α → Except ε β} :
    x >>= f = .ok b ↔ ∃ a, x = .ok a ∧ f a = .ok b := by
  cases x <;> simp [bind, Except.bind]

structure System (σ : Type u) (α : Type v) where
  init : σ → Prop
  step : σ → α → σ → Prop

/-- The state that a step leads to, where it is taken and does not fail. -/
def reached : Option (Except ε σ) → Option σ
  | some (.ok s) => some s
  | _ => none

theorem of_reached {outcome : Option (Except ε σ)} (found : reached outcome = some s) : outcome = some (.ok s) := by
  unfold reached at found
  split at found
  · rw [Option.some.inj found]
  · cases found

/-- The states that runs reach whose steps are all allowed. -/
inductive System.Reachable (system : System σ α) (allowed : σ → α → Prop) : σ → Prop where
  | init (start : system.init s) : Reachable system allowed s
  | step (before : Reachable system allowed s) (may : allowed s a) (taken : system.step s a s') :
      Reachable system allowed s'

/-- Taking the steps one after the other. -/
def System.Run (system : System σ α) : σ → List α → σ → Prop
  | s, [], s' => s = s'
  | s, a :: actions, s' => ∃ between, system.step s a between ∧ system.Run between actions s'

theorem System.Run.append {system : System σ α} (first : system.Run s front s₁) (second : system.Run s₁ back s₂) :
    system.Run s (front ++ back) s₂ := by
  induction front generalizing s with
  | nil =>
    cases first
    exact second
  | cons a front ih =>
    obtain ⟨between, taken, rest⟩ := first
    exact ⟨between, taken, ih rest⟩

theorem System.Run.mono {system wider : System σ α} {actions : List α} (run : system.Run s actions s')
    (steps : ∀ s a s', system.step s a s' → wider.step s a s') : wider.Run s actions s' := by
  induction actions generalizing s with
  | nil => exact run
  | cons a actions ih =>
    obtain ⟨between, taken, rest⟩ := run
    exact ⟨between, steps _ _ _ taken, ih rest⟩

theorem System.Run.of_foldlM {system : System σ α} {act : σ → α → Option σ} {actions : List α}
    (steps : ∀ s a s', act s a = some s' → system.step s a s') (done : actions.foldlM act s = some s') :
    system.Run s actions s' := by
  induction actions generalizing s with
  | nil => exact Option.some.inj done
  | cons a actions ih =>
    rw [List.foldlM_cons] at done
    obtain ⟨between, taken, rest⟩ := Option.bind_eq_some_iff.mp done
    exact ⟨between, steps _ _ _ taken, ih rest⟩

namespace System.Reachable

variable {system : System σ α} {allowed : σ → α → Prop} {s : σ}

/-- What holds at the start and survives every allowed step holds throughout. -/
theorem invariant (reachable : system.Reachable allowed s) (inv : σ → Prop)
    (base : ∀ s, system.init s → inv s)
    (preserved : ∀ s a s', inv s → allowed s a → system.step s a s' → inv s') : inv s := by
  induction reachable with
  | init start => exact base _ start
  | step before may taken ih => exact preserved _ _ _ ih may taken

/-- What a simulation carries over: where each step of the lower system is none or one step
of the upper one, the reachable states of the lower belong to reachable states of the upper. -/
theorem simulated {upper : System τ β} (reachable : system.Reachable allowed s) (sim : σ → τ → Prop)
    (base : ∀ s, system.init s → ∃ t, upper.init t ∧ sim s t)
    (matched : ∀ s t a s', upper.Reachable (fun _ _ => True) t → sim s t → system.step s a s' →
      ∃ t', (t' = t ∨ ∃ b, upper.step t b t') ∧ sim s' t') :
    ∃ t, upper.Reachable (fun _ _ => True) t ∧ sim s t := by
  refine reachable.invariant (fun s => ∃ t, upper.Reachable (fun _ _ => True) t ∧ sim s t) ?_ ?_
  · intro s start
    obtain ⟨t, upperStart, related⟩ := base s start
    exact ⟨t, .init upperStart, related⟩
  · rintro s a s' ⟨t, before, related⟩ _ taken
    obtain ⟨t', same | ⟨b, moved⟩, related'⟩ := matched s t a s' before related taken
    · rw [same] at related'
      exact ⟨t, before, related'⟩
    · exact ⟨t', .step before trivial moved, related'⟩

/-- Allowing more steps reaches more states. -/
theorem mono (reachable : system.Reachable allowed s) {allowed' : σ → α → Prop}
    (weaker : ∀ s a, allowed s a → allowed' s a) : system.Reachable allowed' s := by
  induction reachable with
  | init start => exact .init start
  | step before may taken ih => exact .step ih (weaker _ _ may) taken

theorem run {actions : List α} {s' : σ} (reachable : system.Reachable (fun _ _ => True) s)
    (run : system.Run s actions s') : system.Reachable (fun _ _ => True) s' := by
  induction actions generalizing s with
  | nil =>
    cases run
    exact reachable
  | cons a actions ih =>
    obtain ⟨between, taken, rest⟩ := run
    exact ih (.step reachable trivial taken) rest

/-- A run of steps that are allowed everywhere. -/
theorem runOf {actions : List α} {s' : σ} (reachable : system.Reachable allowed s)
    (may : ∀ a ∈ actions, ∀ s, allowed s a) (run : system.Run s actions s') : system.Reachable allowed s' := by
  induction actions generalizing s with
  | nil =>
    cases run
    exact reachable
  | cons a actions ih =>
    obtain ⟨between, taken, rest⟩ := run
    exact ih (.step reachable (may a (by simp) s) taken) (fun b member => may b (by simp [member])) rest

/-- The steps are taken one after the other, as far as the checks admit them. -/
def follow (act : σ → α → Option (Except ε σ)) (admits : σ → α → Bool) : σ → List α → Option σ
  | s, [] => some s
  | s, a :: actions => if admits s a then (reached (act s a)).bind fun s' => follow act admits s' actions else none

theorem followed {act : σ → α → Option (Except ε σ)} {admits : σ → α → Bool} {actions : List α} {s' : σ}
    (reachable : system.Reachable allowed s)
    (sound : ∀ s a, system.Reachable allowed s → admits s a = true → allowed s a)
    (steps : ∀ s a s', act s a = some (.ok s') → system.step s a s') (done : follow act admits s actions = some s') :
    system.Reachable allowed s' := by
  induction actions generalizing s with
  | nil => exact Option.some.inj done ▸ reachable
  | cons a actions ih =>
    rw [follow] at done
    split at done
    · rename_i may
      obtain ⟨between, taken, rest⟩ := Option.bind_eq_some_iff.mp done
      exact ih (.step reachable (sound _ _ reachable may) (steps _ _ _ (of_reached taken))) rest
    · cases done

end System.Reachable

/-- A machine that is called from outside: each call shows something and leaves a state, unless it is
the last one that is answered. -/
structure Machine (σ : Type u) (α : Type v) (ω : Type w) where
  act : σ → α → ω × Option σ

namespace Machine

variable {machine : Machine σ α ω} {related : σ → σ → Prop} {s t : σ}

/-- What the calls show, one after the other. -/
def watch (machine : Machine σ α ω) (s : σ) : List α → List ω
  | [] => []
  | a :: actions => (machine.act s a).1 :: (machine.act s a).2.elim [] fun s' => machine.watch s' actions

/-- Related states show the same and stay related. -/
def Unwinds (machine : Machine σ α ω) (related : σ → σ → Prop) : Prop :=
  ∀ s t a, related s t →
    (machine.act s a).1 = (machine.act t a).1 ∧ Option.Rel related (machine.act s a).2 (machine.act t a).2

/-- No calls tell related states apart. -/
theorem Unwinds.watch_eq (unwinds : machine.Unwinds related) (start : related s t) (actions : List α) :
    machine.watch s actions = machine.watch t actions := by
  induction actions generalizing s t with
  | nil => rfl
  | cons a actions ih =>
    obtain ⟨seen, left⟩ := unwinds s t a start
    have onward : ∀ first second, Option.Rel related first second →
        first.elim [] (fun s' => machine.watch s' actions) = second.elim [] fun s' => machine.watch s' actions := by
      intro first second kept
      cases kept with
      | none => rfl
      | some next => exact ih next
    rw [watch, watch, seen, onward _ _ left]

end Machine

end Lib
