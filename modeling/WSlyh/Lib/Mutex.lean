/-! A mutex and the threads inside the sections it guards. -/

namespace Lib

/-- The holder of the lock is the one thread inside. -/
def Guards (lock : Option τ) (inside : τ → Prop) : Prop := ∀ thread, inside thread ↔ lock = some thread

namespace Guards

variable {lock : Option τ} {inside inside' : τ → Prop} {thread other : τ}

theorem unique (guards : Guards lock inside) (here : inside thread) (there : inside other) : thread = other :=
  Option.some.inj (((guards thread).mp here).symm.trans ((guards other).mp there))

theorem outside (guards : Guards none inside) (thread : τ) : ¬ inside thread := by
  rw [guards thread]
  exact Option.some_ne_none thread |>.symm

/-- A thread that finds the mutex free goes inside. -/
theorem acquire (guards : Guards none inside) (enters : inside' thread)
    (others : ∀ other, other ≠ thread → (inside' other ↔ inside other)) : Guards (some thread) inside' := by
  intro other
  constructor
  · intro here
    by_cases same : other = thread
    · rw [same]
    · exact absurd ((others other same).mp here) (guards.outside other)
  · intro same
    rw [← Option.some.inj same]
    exact enters

theorem release (guards : Guards lock inside) (thread : τ) (here : inside thread) (leaves : ¬ inside' thread)
    (others : ∀ other, other ≠ thread → (inside' other ↔ inside other)) : Guards none inside' := by
  intro other
  refine iff_of_false (fun there => ?_) (Option.some_ne_none other).symm
  by_cases same : other = thread
  · exact leaves (same ▸ there)
  · exact same (guards.unique ((others other same).mp there) here)

/-- Steps that neither enter nor leave. -/
theorem keep (guards : Guards lock inside) (same : ∀ thread, inside' thread ↔ inside thread) : Guards lock inside' :=
  fun thread => (same thread).trans (guards thread)

end Guards

end Lib
