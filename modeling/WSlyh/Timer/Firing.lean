import WSlyh.Timer.Operations

/-! Which timers a `Tick` fires, and in what order. -/

namespace WSlyh.Timer

open Lib

namespace CTimerHeap

variable {heap heap' : CTimerHeap} {curTime : Int}

/-- Once there are as many rounds as timers, more of them change nothing. -/
theorem tickLoop_enough (placed : heap.Placed) (enough : heap.curNum ≤ rounds) :
    heap.tickLoop curTime (rounds + 1) = heap.tickLoop curTime rounds := by
  induction rounds generalizing heap with
  | zero =>
    have none_ : heap.curNum = 0 := Nat.le_zero.mp enough
    simp only [tickLoop, if_pos none_]
  | succ rounds ih =>
    by_cases none_ : heap.curNum = 0
    · rw [tickLoop, if_pos none_, tickLoop, if_pos none_]
    · have some_ : 0 < heap.curNum := Nat.pos_of_ne_zero none_
      have root := read_eq (some_.trans_le placed.room)
      rw [placed.entry 0 some_] at root
      obtain ⟨heap₁, popped₁, curNum, holds, _⟩ := popTimer_spec placed some_
      have fewer := ih holds.placed (by omega)
      conv => lhs; rw [tickLoop]
      conv => rhs; rw [tickLoop]
      simp only [if_neg none_, root, ok_bind, popped₁, fewer]

theorem tickLoop_mono (placed : heap.Placed) (enough : heap.curNum ≤ rounds) :
    heap.tickLoop curTime rounds = heap.tickLoop curTime heap.curNum := by
  induction rounds, enough using Nat.le_induction with
  | base => rfl
  | succ rounds enough ih =>
    rw [← ih]
    exact tickLoop_enough placed enough

/-- The roots come in the order of their times. -/
theorem roots_sorted (placed : heap.Placed) (ordered : heap.Ordered) (enough : heap.curNum ≤ rounds) :
    (heap.roots curTime rounds).Pairwise fun first second => heap.expire first ≤ heap.expire second := by
  induction rounds generalizing heap with
  | zero => exact List.Pairwise.nil
  | succ rounds ih =>
    rw [roots]
    split
    · exact List.Pairwise.nil
    split
    · exact List.Pairwise.nil
    rename_i occupied _
    have some_ : 0 < heap.curNum := Nat.pos_of_ne_zero occupied
    obtain ⟨heap₁, popped₁, curNum, holds, order⟩ := popTimer_spec placed some_
    have fewer : heap₁.curNum ≤ rounds := by omega
    obtain ⟨_, _, ticked⟩ := tickLoop_spec holds.placed curTime fewer
    have sorted := ih holds.placed (order ordered) fewer
    rw [holds.expire] at sorted
    rw [popped₁]
    apply List.Pairwise.cons _ sorted
    intro timer member
    obtain ⟨⟨i, small, rfl⟩, _⟩ := (holds.members timer).mp (ticked.members timer member)
    exact ordered.root_le small

/-- Given the order, what a `Tick` pops is all that is due. -/
theorem Ticked.mem_popped (ticked : heap.Ticked curTime popped heap') (ordered : heap.Ordered) (timer : TimerPtr) :
    timer ∈ popped ↔ heap.Mem timer ∧ heap.expire timer ≤ curTime := by
  constructor
  · intro member
    exact ⟨ticked.members timer member, ticked.due timer member⟩
  · rintro ⟨member, due⟩
    by_contra stays
    have left := (ticked.holds.members timer).mpr ⟨member, stays⟩
    exact absurd due (not_le.mpr ((ticked.ordered ordered).2 timer left))

theorem Ticked.mem_left (ticked : heap.Ticked curTime popped heap') (ordered : heap.Ordered) (timer : TimerPtr) :
    heap'.Mem timer ↔ heap.Mem timer ∧ curTime < heap.expire timer := by
  rw [ticked.holds.members, ticked.mem_popped ordered, not_and, not_le]
  constructor
  · rintro ⟨member, later⟩
    exact ⟨member, later member⟩
  · rintro ⟨member, later⟩
    exact ⟨member, fun _ => later⟩

end CTimerHeap

/-- A `Tick` at `curTime`: `fired` are the timers whose callback is called, in order. -/
structure CTimerHeap.Fires (heap : CTimerHeap) (curTime : Int) (fired : List TimerPtr)
    (heap' : CTimerHeap) : Prop where
  tick : heap.tick curTime = .ok (heap', fired.map fun timer => (heap.timers timer).clientData)
  ends : ∀ rounds, heap.curNum ≤ rounds →
    heap.tickLoop curTime rounds = .ok (heap', fired.map fun timer => (heap.timers timer).clientData)
  once : fired.Nodup
  due : ∀ timer, timer ∈ fired ↔
    heap.Mem timer ∧ (heap.timers timer).callbackFunc.isSome ∧ heap.expire timer ≤ curTime
  inOrder : fired.Pairwise fun first second => heap.expire first ≤ heap.expire second
  left : ∀ timer, heap'.Mem timer ↔ heap.Mem timer ∧ curTime < heap.expire timer
  unchanged : ∀ timer, ∃ pos, heap'.timers timer = { heap.timers timer with pos }
  placed : heap'.Placed
  ordered : heap'.Ordered

/-- On every heap, `Tick` fires the timers that are due and not cancelled, in order, and
leaves a heap of those that are not due. -/
theorem tick_fires {heap : CTimerHeap} (placed : heap.Placed) (ordered : heap.Ordered) (curTime : Int) :
    ∃ fired heap', heap.Fires curTime fired heap' := by
  obtain ⟨heap', done, ticked⟩ := CTimerHeap.tick_spec placed curTime
  have looped (rounds : Nat) (enough : heap.curNum ≤ rounds) : heap.tickLoop curTime rounds =
      .ok (heap', heap.called (heap.roots curTime heap.curNum)) := by
    rw [CTimerHeap.tickLoop_mono placed enough, ← done, CTimerHeap.tick, CTimerHeap.read_eq placed.start, ok_bind]
  refine ⟨_, heap', done, looped, ticked.nodup.filter _, ?_, ?_, ticked.mem_left ordered, ticked.holds.timers,
    ticked.holds.placed, (ticked.ordered ordered).1⟩
  · intro timer
    rw [List.mem_filter, ticked.mem_popped ordered]
    constructor
    · rintro ⟨⟨member, due⟩, callback⟩
      exact ⟨member, callback, due⟩
    · rintro ⟨member, callback, due⟩
      exact ⟨⟨member, due⟩, callback⟩
  · exact (CTimerHeap.roots_sorted placed ordered le_rfl).filter _

/-- Three timers of the seconds 0, 1 and 2, of which the second is cancelled. -/
def threeTimers : CTimerHeap where
  capacity := 3
  curNum := 3
  aTimers i := some i
  timers i := {
    callbackFunc := if i = 1 then none else some .callBackFunc
    expireTime := i
    clientData := i + 10
    pos := i }
  allocated := 3

theorem threeTimers_placed : threeTimers.Placed :=
  ⟨by decide, by decide, fun _ _ => rfl, fun _ _ => rfl, fun _ small => small⟩

theorem threeTimers_ordered : threeTimers.Ordered := by
  intro i positive small
  have below : parent i ≤ i := (parent_lt positive).le
  exact Int.ofNat_le.mpr below

theorem threeTimers_fires : ∃ fired heap', threeTimers.Fires 1 fired heap' :=
  tick_fires threeTimers_placed threeTimers_ordered 1

end WSlyh.Timer
