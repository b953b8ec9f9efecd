import Mathlib.Data.Int.Order.Basic
import WSlyh.Lib.Transition
import WSlyh.Lib.Heap
import WSlyh.Timer.TimerHeap

/-! Every operation of the timer heap keeps each timer in one place, and lets it know that
place. Given the order, it keeps the order too. -/

namespace WSlyh.Timer

open Lib

namespace CTimerHeap

/-- The timer in an entry in use. -/
def slot (heap : CTimerHeap) (i : Nat) : TimerPtr := (heap.aTimers i).getD 0

def Mem (heap : CTimerHeap) (timer : TimerPtr) : Prop := ∃ i < heap.curNum, heap.slot i = timer

/-- The entries in use lead to timers that know where they are. -/
structure Placed (heap : CTimerHeap) : Prop where
  start : 0 < heap.capacity
  room : heap.curNum ≤ heap.capacity
  entry : ∀ i < heap.curNum, heap.aTimers i = some (heap.slot i)
  pos : ∀ i < heap.curNum, (heap.timers (heap.slot i)).pos = i
  allocated : ∀ i < heap.curNum, heap.slot i < heap.allocated

def Ordered (heap : CTimerHeap) : Prop := HeapOrdered heap.expire heap.curNum heap.slot

/-- Only places changed. -/
structure Frame (heap heap' : CTimerHeap) : Prop where
  curNum : heap'.curNum = heap.curNum
  capacity : heap'.capacity = heap.capacity
  allocated : heap'.allocated = heap.allocated
  timers : ∀ timer, ∃ pos, heap'.timers timer = { heap.timers timer with pos }

/-- The array lacks the item of `slot node` only, which stands somewhere on its way. -/
structure Hole (heap : CTimerHeap) (slot : Nat → TimerPtr) (node : Nat) : Prop where
  start : 0 < heap.capacity
  room : heap.curNum ≤ heap.capacity
  inside : node < heap.curNum
  entry : ∀ i < heap.curNum, i ≠ node → heap.aTimers i = some (slot i)
  pos : ∀ i < heap.curNum, i ≠ node → (heap.timers (slot i)).pos = i
  allocated : ∀ i < heap.curNum, slot i < heap.allocated
  distinct : ∀ i < heap.curNum, i ≠ node → slot i ≠ slot node

variable {heap heap' heap₁ heap₂ : CTimerHeap} {slot : Nat → TimerPtr} {node : Nat}

namespace Frame

theorem refl (heap : CTimerHeap) : heap.Frame heap := ⟨rfl, rfl, rfl, fun _ => ⟨_, rfl⟩⟩

theorem trans (first : heap.Frame heap₁) (second : heap₁.Frame heap₂) : heap.Frame heap₂ := by
  refine ⟨second.curNum.trans first.curNum, second.capacity.trans first.capacity,
    second.allocated.trans first.allocated, fun timer => ?_⟩
  obtain ⟨_, between⟩ := first.timers timer
  obtain ⟨pos, after⟩ := second.timers timer
  exact ⟨pos, by rw [after, between]⟩

variable (frame : heap.Frame heap')
include frame

theorem expire : heap'.expire = heap.expire := by
  funext timer
  obtain ⟨_, same⟩ := frame.timers timer
  simp [CTimerHeap.expire, same]

theorem callbackFunc (timer : TimerPtr) : (heap'.timers timer).callbackFunc = (heap.timers timer).callbackFunc := by
  obtain ⟨_, same⟩ := frame.timers timer
  rw [same]

theorem clientData (timer : TimerPtr) : (heap'.timers timer).clientData = (heap.timers timer).clientData := by
  obtain ⟨_, same⟩ := frame.timers timer
  rw [same]

end Frame

theorem read_eq (inside : i < heap.capacity) : heap.read i = .ok (heap.aTimers i) := by rw [read, if_pos inside]

theorem load_eq (inside : i < heap.capacity) (found : heap.aTimers i = some timer) : heap.load i = .ok timer := by
  rw [load, read_eq inside, ok_bind, found]

theorem place_frame (done : heap.place i timer = .ok heap') : heap.Frame heap' := by
  unfold place at done
  split at done
  · cases done
    refine ⟨rfl, rfl, rfl, fun other => ?_⟩
    by_cases same : other = timer
    · subst same
      exact ⟨i, by simp [modify]⟩
    · exact ⟨(heap.timers other).pos, Function.update_of_ne same ..⟩
  · cases done

theorem place_succeeds (inside : i < heap.capacity) (timer : TimerPtr) :
    ∃ heap', heap.place i timer = .ok heap' ∧ heap'.aTimers = Function.update heap.aTimers i (some timer) ∧
      (heap'.timers timer).pos = i ∧ ∀ other ≠ timer, heap'.timers other = heap.timers other := by
  refine ⟨_, if_pos inside, rfl, ?_, fun other differ => ?_⟩
  · simp [modify]
  · simp [modify, Function.update_of_ne differ]

theorem Placed.distinct (placed : heap.Placed) (left : i < heap.curNum) (right : j < heap.curNum)
    (same : heap.slot i = heap.slot j) : i = j := by
  have here := placed.pos i left
  rw [same, placed.pos j right] at here
  exact here.symm

/-- A node of a placed heap, taken for the one on its way. -/
theorem Placed.hole (placed : heap.Placed) (inside : node < heap.curNum) : heap.Hole heap.slot node :=
  ⟨placed.start, placed.room, inside, fun _ small _ => placed.entry _ small, fun _ small _ => placed.pos _ small,
    placed.allocated, fun _ small other same => other (placed.distinct small inside same)⟩

namespace Hole

theorem load (hole : heap.Hole slot node) (inside : i < heap.curNum) (other : i ≠ node) :
    heap.load i = .ok (slot i) :=
  load_eq (inside.trans_le hole.room) (hole.entry i inside other)

/-- The item on its way is put into its place. -/
theorem fill (hole : heap.Hole slot node) :
    ∃ heap', heap.place node (slot node) = .ok heap' ∧ heap'.Placed ∧ heap.Frame heap' ∧
      ∀ i < heap.curNum, heap'.slot i = slot i := by
  obtain ⟨heap', done, entries, pos, others⟩ := place_succeeds (hole.inside.trans_le hole.room) (slot node)
  have frame := place_frame done
  have entry (i : Nat) (small : i < heap.curNum) : heap'.aTimers i = some (slot i) := by
    rw [entries]
    by_cases here : i = node
    · rw [here, Function.update_self]
    · rw [Function.update_of_ne here]
      exact hole.entry i small here
  have slots (i : Nat) (small : i < heap.curNum) : heap'.slot i = slot i := by simp [CTimerHeap.slot, entry i small]
  refine ⟨heap', done, ⟨frame.capacity ▸ hole.start, ?_, fun i small => ?_, fun i small => ?_, fun i small => ?_⟩,
    frame, slots⟩
  · rw [frame.curNum, frame.capacity]
    exact hole.room
  all_goals rw [frame.curNum] at small; rw [slots i small]
  · exact entry i small
  · by_cases here : i = node
    · rw [here, pos]
    · rw [others _ (hole.distinct i small here)]
      exact hole.pos i small here
  · rw [frame.allocated]
    exact hole.allocated i small

/-- The item on its way changes places with another one. -/
theorem move (hole : heap.Hole slot node) (inside : other < heap.curNum) (differ : other ≠ node) :
    ∃ heap', heap.place node (slot other) = .ok heap' ∧ heap'.Hole (swapped slot node other) other ∧
      heap.Frame heap' := by
  obtain ⟨heap', done, entries, pos, others⟩ := place_succeeds (hole.inside.trans_le hole.room) (slot other)
  have frame := place_frame done
  have stays (i : Nat) (small : i < heap.curNum) (first : i ≠ node) (second : i ≠ other) :
      heap'.timers (slot i) = heap.timers (slot i) := by
    refine others _ fun same => second ?_
    rw [← hole.pos i small first, ← hole.pos other inside differ, same]
  refine ⟨heap', done, ⟨frame.capacity ▸ hole.start, ?_, frame.curNum ▸ inside, fun i small apart => ?_,
    fun i small apart => ?_, fun i small => ?_, fun i small apart => ?_⟩, frame⟩
  · rw [frame.curNum, frame.capacity]
    exact hole.room
  all_goals rw [frame.curNum] at small; by_cases here : i = node
  · rw [here, entries, Function.update_self, swapped_left]
  · rw [entries, Function.update_of_ne here, swapped_other _ _ _ here apart]
    exact hole.entry i small here
  · rw [here, swapped_left, pos]
  · rw [swapped_other _ _ _ here apart, stays i small here apart]
    exact hole.pos i small here
  · rw [here, swapped_left, frame.allocated]
    exact hole.allocated other inside
  · rw [frame.allocated]
    by_cases there : i = other
    · rw [there, swapped_right]
      exact hole.allocated node hole.inside
    · rw [swapped_other _ _ _ here there]
      exact hole.allocated i small
  · rw [here, swapped_left, swapped_right]
    exact hole.distinct other inside differ
  · rw [swapped_other _ _ _ here apart, swapped_right]
    exact hole.distinct i small here

end Hole

end CTimerHeap

end WSlyh.Timer
