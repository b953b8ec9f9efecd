import WSlyh.Timer.Placement

/-! What the operations of the timer heap do to the timers in it. None of them faults on a
heap whose entries are in place. -/

namespace WSlyh.Timer

open Lib

namespace CTimerHeap

variable {heap : CTimerHeap} {slot : Nat → TimerPtr} {node : Nat}

/-- The item on its way is found elsewhere, among the same items. -/
structure Sifted (heap : CTimerHeap) (slot : Nat → TimerPtr) (node : Nat) (heap' : CTimerHeap)
    (slot' : Nat → TimerPtr) (node' : Nat) : Prop where
  hole : heap'.Hole slot' node'
  item : slot' node' = slot node
  frame : heap.Frame heap'
  members : ∀ timer, (∃ i < heap.curNum, slot' i = timer) ↔ ∃ i < heap.curNum, slot i = timer

theorem Hole.sifted (hole : heap.Hole slot node) : heap.Sifted slot node heap slot node :=
  ⟨hole, rfl, .refl heap, fun _ => Iff.rfl⟩

/-- One exchange, and the way from there on. -/
theorem Sifted.before (inside : node < heap.curNum) (other : next < heap.curNum) (frame : heap.Frame heap₁)
    (sifted : heap₁.Sifted (swapped slot node next) next heap' slot' node') :
    heap.Sifted slot node heap' slot' node' := by
  refine ⟨sifted.hole, sifted.item.trans (swapped_right slot node next), frame.trans sifted.frame, fun timer => ?_⟩
  have members := sifted.members timer
  rw [frame.curNum] at members
  exact members.trans (exists_swapped slot node next inside other timer)

theorem smallerChild_spec (hole : heap.Hole slot node) (inside : node * 2 + 1 < heap.curNum) :
    ∃ child, heap.smallerChild node = .ok child ∧ 0 < child ∧ child < heap.curNum ∧ parent child = node ∧
      ∀ i, 0 < i → i < heap.curNum → parent i = node → heap.expire (slot child) ≤ heap.expire (slot i) := by
  have left := hole.load inside (by omega)
  by_cases two : node * 2 + 1 + 1 < heap.curNum
  · have right := hole.load two (by omega)
    have children (P : Nat → Prop) (first : P (node * 2 + 1)) (second : P (node * 2 + 2)) :
        ∀ i, 0 < i → i < heap.curNum → parent i = node → P i := by
      intro i positive _ under
      rcases (parent_eq_iff positive).mp under with rfl | rfl
      · exact first
      · exact second
    by_cases less : heap.expire (slot (node * 2 + 1 + 1)) < heap.expire (slot (node * 2 + 1))
    · refine ⟨node * 2 + 1 + 1, ?_, by omega, two, (parent_eq_iff (by omega)).mpr (.inr rfl),
        children _ less.le le_rfl⟩
      simp only [smallerChild, if_pos two, right, left, ok_bind, if_pos less]
    · refine ⟨node * 2 + 1, ?_, by omega, inside, (parent_eq_iff (by omega)).mpr (.inl rfl),
        children _ le_rfl (not_lt.mp less)⟩
      simp only [smallerChild, if_pos two, right, left, ok_bind, if_neg less]
  · refine ⟨node * 2 + 1, ?_, by omega, inside, (parent_eq_iff (by omega)).mpr (.inl rfl), ?_⟩
    · simp only [smallerChild, if_neg two]
    · intro i positive small under
      rcases (parent_eq_iff positive).mp under with rfl | rfl
      · exact le_rfl
      · omega

/-- Each round of `HeapDown` leaves the heap as it is or exchanges the item with its smaller child. -/
theorem siftDown_spec (hole : heap.Hole slot node) (enough : heap.curNum ≤ node + rounds) :
    ∃ heap' slot' node', heap.siftDown (slot node) node rounds = .ok (heap', node') ∧
      heap.Sifted slot node heap' slot' node' ∧
      (Sinking heap.expire heap.curNum slot node → HeapOrdered heap.expire heap.curNum slot') := by
  induction rounds generalizing heap slot node with
  | zero =>
    have inside := hole.inside
    omega
  | succ rounds ih =>
    by_cases inside : node * 2 + 1 < heap.curNum
    · obtain ⟨child, chosen, positive, small, under, smaller⟩ := smallerChild_spec hole inside
      have below := parent_lt positive
      have loaded := hole.load small (by omega)
      by_cases less : heap.expire (slot node) > heap.expire (slot child)
      · obtain ⟨heap₁, moved, hole₁, frame⟩ := hole.move small (by omega)
        obtain ⟨heap', slot', node', done, sifted, ordered⟩ :=
          ih hole₁ (by rw [frame.curNum]; omega)
        rw [swapped_right] at done
        refine ⟨heap', slot', node', ?_, sifted.before hole.inside small frame, fun sinking => ?_⟩
        · simp only [siftDown, if_pos inside, chosen, loaded, ok_bind, if_pos less, moved]
          exact done
        · rw [frame.expire, frame.curNum] at ordered
          exact ordered (sinking.down positive under smaller small less.le)
      · refine ⟨heap, slot, node, ?_, hole.sifted, fun sinking => sinking.stop fun i low high above => ?_⟩
        · simp only [siftDown, if_pos inside, chosen, loaded, ok_bind, if_neg less]
        · exact (not_lt.mp less).trans (smaller i low high above)
    · refine ⟨heap, slot, node, by rw [siftDown, if_neg inside], hole.sifted, fun sinking => sinking.stop ?_⟩
      intro i positive small under
      rcases (parent_eq_iff positive).mp under with rfl | rfl <;> omega

/-- Each round of `AddTimer` leaves the heap as it is or exchanges the item with the one above it. -/
theorem siftUp_spec (hole : heap.Hole slot node) (enough : node ≤ rounds) :
    ∃ heap' slot' node', heap.siftUp (slot node) node rounds = .ok (heap', node') ∧
      heap.Sifted slot node heap' slot' node' ∧
      (Rising heap.expire heap.curNum slot node → HeapOrdered heap.expire heap.curNum slot') := by
  induction rounds generalizing heap slot node with
  | zero => exact ⟨heap, slot, node, rfl, hole.sifted, fun rising => rising.stop (by omega)⟩
  | succ rounds ih =>
    by_cases positive : node > 0
    · have above := parent_lt positive
      have small : parent node < heap.curNum := above.trans hole.inside
      have loaded : heap.load ((node - 1) / 2) = .ok (slot (parent node)) := hole.load small (by omega)
      by_cases less : heap.expire (slot (parent node)) > heap.expire (slot node)
      · obtain ⟨heap₁, moved, hole₁, frame⟩ := hole.move small (by omega)
        obtain ⟨heap', slot', node', done, sifted, ordered⟩ := ih hole₁ (by omega)
        rw [swapped_right] at done
        refine ⟨heap', slot', node', ?_, sifted.before hole.inside small frame, fun rising => ?_⟩
        · simp only [siftUp, if_pos positive, loaded, ok_bind, if_pos less, moved]
          exact done
        · rw [frame.expire, frame.curNum] at ordered
          exact ordered (rising.up positive hole.inside less.le)
      · refine ⟨heap, slot, node, ?_, hole.sifted, fun rising => rising.stop fun _ => not_lt.mp less⟩
        simp only [siftUp, if_pos positive, loaded, ok_bind, if_neg less]
    · exact ⟨heap, slot, node, by rw [siftUp, if_neg positive], hole.sifted, fun rising => rising.stop (by omega)⟩

/-- The heap is in place again, with the items of `slot`. -/
structure Settled (heap : CTimerHeap) (slot : Nat → TimerPtr) (heap' : CTimerHeap) : Prop where
  placed : heap'.Placed
  frame : heap.Frame heap'
  members : ∀ timer, heap'.Mem timer ↔ ∃ i < heap.curNum, slot i = timer

theorem Sifted.fill (sifted : heap.Sifted slot node heap₁ slot' node') :
    ∃ heap', heap₁.place node' (slot node) = .ok heap' ∧ heap.Settled slot heap' ∧
      (HeapOrdered heap.expire heap.curNum slot' → heap'.Ordered) := by
  obtain ⟨heap', done, placed, frame, slots⟩ := sifted.hole.fill
  have whole := sifted.frame.trans frame
  rw [sifted.item] at done
  rw [sifted.frame.curNum] at slots
  refine ⟨heap', done, ⟨placed, whole, fun timer => ?_⟩, fun ordered i positive small => ?_⟩
  · rw [← sifted.members timer, Mem, whole.curNum]
    exact exists_congr fun i => and_congr_right fun small => by rw [slots i small]
  · rw [whole.curNum] at small
    have above := parent_lt positive
    rw [slots i small, slots _ (above.trans small), whole.expire]
    exact ordered i positive small

theorem heapDown_spec (hole : heap.Hole slot node) (found : heap.aTimers node = some (slot node)) :
    ∃ heap', heap.heapDown node = .ok heap' ∧ heap.Settled slot heap' ∧
      (Sinking heap.expire heap.curNum slot node → heap'.Ordered) := by
  have loaded := load_eq (hole.inside.trans_le hole.room) found
  obtain ⟨heap₁, slot', node', down, sifted, ordered⟩ := siftDown_spec hole (Nat.le_add_left ..)
  obtain ⟨heap', filled, settled, last⟩ := sifted.fill
  refine ⟨heap', ?_, settled, fun sinking => last (ordered sinking)⟩
  simp only [heapDown, loaded, ok_bind, down]
  exact filled

/-- `heap'` holds these timers, each in its place; but for the places no timer changed. -/
structure Holds (heap : CTimerHeap) (members : TimerPtr → Prop) (heap' : CTimerHeap) : Prop where
  placed : heap'.Placed
  allocated : heap'.allocated = heap.allocated
  timers : ∀ timer, ∃ pos, heap'.timers timer = { heap.timers timer with pos }
  members : ∀ timer, heap'.Mem timer ↔ members timer

theorem Settled.holds (settled : heap.Settled slot heap') :
    heap.Holds (fun timer => ∃ i < heap.curNum, slot i = timer) heap' :=
  ⟨settled.placed, settled.frame.allocated, settled.frame.timers, settled.members⟩

namespace Holds

variable {items : TimerPtr → Prop} (holds : heap.Holds items heap')
include holds

theorem expire : heap'.expire = heap.expire := by
  funext timer
  obtain ⟨_, same⟩ := holds.timers timer
  simp [CTimerHeap.expire, same]

theorem callbackFunc (timer : TimerPtr) : (heap'.timers timer).callbackFunc = (heap.timers timer).callbackFunc := by
  obtain ⟨_, same⟩ := holds.timers timer
  rw [same]

theorem clientData (timer : TimerPtr) : (heap'.timers timer).clientData = (heap.timers timer).clientData := by
  obtain ⟨_, same⟩ := holds.timers timer
  rw [same]

end Holds

theorem create_placed {size : Nat} (positive : 0 < size) : (create size).Placed :=
  ⟨positive, Nat.zero_le _, by simp [create], by simp [create], by simp [create]⟩

theorem not_mem_create (size : Nat) (timer : TimerPtr) : ¬ (create size).Mem timer := by
  simp [Mem, create]

theorem create_ordered (size : Nat) : (create size).Ordered := by
  intro i _ small
  simp [create] at small

/-- A change of a timer that leaves its place alone. -/
theorem Placed.modify (placed : heap.Placed) (timer : TimerPtr) (change : CHeapTimer → CHeapTimer)
    (keeps : ∀ node, (change node).pos = node.pos) : (heap.modify timer change).Placed := by
  refine ⟨placed.start, placed.room, placed.entry, fun i small => .trans ?_ (placed.pos i small), placed.allocated⟩
  change ((heap.modify timer change).timers (heap.slot i)).pos = _
  by_cases same : heap.slot i = timer
  · rw [same, modify_self, keeps]
  · rw [modify_other _ _ same]

theorem Placed.delTimer (placed : heap.Placed) (timer : TimerPtr) : (heap.delTimer (some timer)).Placed :=
  placed.modify timer (fun node => { node with callbackFunc := none }) fun _ => rfl

theorem delTimer_other (apart : other ≠ timer) : (heap.delTimer (some timer)).timers other = heap.timers other :=
  modify_other heap (fun node => { node with callbackFunc := none }) apart

theorem delTimer_self (heap : CTimerHeap) (timer : TimerPtr) :
    (heap.delTimer (some timer)).timers timer = { heap.timers timer with callbackFunc := none } :=
  modify_self heap timer fun node => { node with callbackFunc := none }

theorem expire_delTimer (heap : CTimerHeap) (timer : TimerPtr) :
    (heap.delTimer (some timer)).expire = heap.expire := by
  funext other
  by_cases same : other = timer
  · rw [same, CTimerHeap.expire, delTimer_self, CTimerHeap.expire]
  · rw [CTimerHeap.expire, delTimer_other same, CTimerHeap.expire]

theorem Placed.allocate (placed : heap.Placed) (now delaytime : Int) : (heap.newTimer now delaytime).1.Placed := by
  refine ⟨placed.start, placed.room, placed.entry, fun i small => .trans ?_ (placed.pos i small), fun i small => ?_⟩
  · exact congrArg CHeapTimer.pos (Function.update_of_ne (placed.allocated i small).ne ..)
  · exact (placed.allocated i small).trans (Nat.lt_succ_self _)

/-- The heap in which the loop of `AddTimer` starts. -/
theorem Placed.widened (placed : heap.Placed) (old : timer < heap.allocated) (fresh : ¬ heap.Mem timer) :
    ∃ heap₁, heap₁ = { (if heap.curNum ≥ heap.capacity then heap.resize else heap) with curNum := heap.curNum + 1 } ∧
      heap₁.Hole (Function.update heap.slot heap.curNum timer) heap.curNum := by
  refine ⟨_, rfl, ?_⟩
  have others (i : Nat) (small : i < heap.curNum + 1) (other : i ≠ heap.curNum) :
      i < heap.curNum ∧ Function.update heap.slot heap.curNum timer i = heap.slot i :=
    ⟨by omega, Function.update_of_ne other ..⟩
  have start := placed.start
  have room := placed.room
  constructor
  · split <;> simp only [resize] <;> omega
  · split <;> simp only [resize] <;> omega
  · exact Nat.lt_succ_self _
  · intro i small other
    obtain ⟨inside, same⟩ := others i small other
    rw [same, ← placed.entry i inside]
    split
    · exact if_pos inside
    · rfl
  · intro i small other
    obtain ⟨inside, same⟩ := others i small other
    have pos := placed.pos i inside
    rw [same]
    split <;> exact pos
  · intro i small
    have kept : (if heap.curNum ≥ heap.capacity then heap.resize else heap).allocated = heap.allocated := by
      split <;> rfl
    rw [kept]
    by_cases last : i = heap.curNum
    · rw [last, Function.update_self]
      exact old
    · obtain ⟨inside, same⟩ := others i small last
      rw [same]
      exact placed.allocated i inside
  · intro i small other
    obtain ⟨inside, same⟩ := others i small other
    rw [same, Function.update_self]
    exact fun here => fresh ⟨i, inside, here⟩

theorem addTimer_spec (placed : heap.Placed) (old : timer < heap.allocated) (fresh : ¬ heap.Mem timer) :
    ∃ heap', heap.addTimer (some timer) = .ok heap' ∧
      heap.Holds (fun other => heap.Mem other ∨ other = timer) heap' ∧ (heap.Ordered → heap'.Ordered) := by
  obtain ⟨heap₁, wide, hole⟩ := placed.widened old fresh
  have curNum : heap₁.curNum = heap.curNum + 1 := by rw [wide]
  have timers : heap₁.timers = heap.timers := by
    rw [wide]
    split <;> rfl
  have allocated : heap₁.allocated = heap.allocated := by
    rw [wide]
    split <;> rfl
  have expire : heap₁.expire = heap.expire := by
    funext other
    rw [CTimerHeap.expire, timers, CTimerHeap.expire]
  obtain ⟨heap₂, slot', node', up, sifted, ordered⟩ := siftUp_spec hole le_rfl
  obtain ⟨heap', filled, settled, last⟩ := sifted.fill
  rw [Function.update_self] at up filled
  refine ⟨heap', ?_, ⟨settled.placed, settled.frame.allocated.trans allocated, fun other => ?_, fun other => ?_⟩,
    fun before => last (ordered ?_)⟩
  · have unchanged : (if heap.curNum ≥ heap.capacity then heap.resize else heap).curNum = heap.curNum := by
      split <;> rfl
    rw [wide] at up
    simp only [addTimer, unchanged, up, ok_bind]
    exact filled
  · rw [← timers]
    exact settled.frame.timers other
  · rw [settled.members, curNum]
    constructor
    · rintro ⟨i, small, found⟩
      by_cases here : i = heap.curNum
      · rw [here, Function.update_self] at found
        exact .inr found.symm
      · rw [Function.update_of_ne here] at found
        exact .inl ⟨i, by omega, found⟩
    · rintro (⟨i, small, found⟩ | rfl)
      · exact ⟨i, by omega, by rw [Function.update_of_ne small.ne, found]⟩
      · exact ⟨heap.curNum, Nat.lt_succ_self _, Function.update_self ..⟩
  · rw [expire, curNum]
    exact before.rising _ fun i small => Function.update_of_ne small.ne ..

/-- `Adjust`, once the timer's time has changed from that of `heap`. -/
theorem adjust_spec (placed : heap.Placed) (member : heap.Mem timer) (expireTime : Int) :
    ∃ heap', (heap.setExpireTime timer expireTime).adjust timer = .ok heap' ∧
      (heap.setExpireTime timer expireTime).Holds heap.Mem heap' ∧
      (heap.Ordered → heap.expire timer ≤ expireTime → heap'.Ordered) := by
  obtain ⟨node, inside, found⟩ := member
  have changed : (heap.setExpireTime timer expireTime).Placed :=
    placed.modify timer (fun node => { node with expireTime }) fun _ => rfl
  have pos : ((heap.setExpireTime timer expireTime).timers timer).pos = node := by
    have place : (heap.setExpireTime timer expireTime).slot node = timer := found
    have here := changed.pos node inside
    rwa [place] at here
  obtain ⟨heap', done, settled, ordered⟩ := heapDown_spec (changed.hole inside) (changed.entry node inside)
  refine ⟨heap', ?_, settled.holds, fun before later => ordered (before.sinking _ (fun i small other => ?_) ?_)⟩
  · rw [adjust, pos]
    exact done
  · have apart : heap.slot i ≠ timer := fun same => other (placed.distinct small inside (same.trans found.symm))
    exact congrArg CHeapTimer.expireTime (modify_other _ _ apart)
  · rw [found]
    simp only [CTimerHeap.expire, setExpireTime, modify_self]
    exact later

/-- The last timer, put at the root of the array. -/
def shrunk (heap : CTimerHeap) : CTimerHeap :=
  { heap with
    curNum := heap.curNum - 1
    aTimers := Function.update heap.aTimers 0 (some (heap.slot (heap.curNum - 1))) }

theorem Placed.popTimer_eq (placed : heap.Placed) (some_ : 0 < heap.curNum) :
    heap.popTimer = heap.shrunk.heapDown 0 := by
  have root := read_eq (some_.trans_le placed.room)
  have last : heap.read (heap.curNum - 1) = .ok (heap.aTimers (heap.curNum - 1)) :=
    read_eq (by have := placed.room; omega)
  rw [placed.entry 0 some_] at root
  rw [placed.entry _ (by omega)] at last
  simp only [popTimer, if_neg some_.ne', root, last, ok_bind, shrunk]

/-- The items of a heap without its root, the last one in its place. -/
def rest (heap : CTimerHeap) (i : Nat) : TimerPtr := heap.slot (if i = 0 then heap.curNum - 1 else i)

theorem Placed.shrunk_hole (placed : heap.Placed) (two : 1 < heap.curNum) : heap.shrunk.Hole heap.rest 0 := by
  have room := placed.room
  have inner (i : Nat) (small : i < heap.shrunk.curNum) (apart : i ≠ 0) :
      i < heap.curNum ∧ heap.rest i = heap.slot i :=
    ⟨by simp only [shrunk] at small; omega, by rw [rest, if_neg apart]⟩
  refine ⟨placed.start, ?_, ?_, fun i small apart => ?_, fun i small apart => ?_, fun i small => ?_,
    fun i small apart same => ?_⟩
  · simp only [shrunk]
    omega
  · simp only [shrunk]
    omega
  · obtain ⟨inside, item⟩ := inner i small apart
    rw [item, ← placed.entry i inside]
    exact Function.update_of_ne apart ..
  · obtain ⟨inside, item⟩ := inner i small apart
    rw [item]
    exact placed.pos i inside
  · simp only [shrunk] at small
    refine placed.allocated _ ?_
    split <;> omega
  · obtain ⟨inside, item⟩ := inner i small apart
    rw [item, rest, if_pos rfl] at same
    have last := placed.distinct inside (by omega) same
    simp only [shrunk] at small
    omega

theorem Placed.mem_rest (placed : heap.Placed) (timer : TimerPtr) :
    (∃ i < heap.shrunk.curNum, heap.rest i = timer) ↔ heap.Mem timer ∧ timer ≠ heap.slot 0 := by
  constructor
  · rintro ⟨i, small, rfl⟩
    simp only [shrunk] at small
    have inside : (if i = 0 then heap.curNum - 1 else i) < heap.curNum := by split <;> omega
    refine ⟨⟨_, inside, rfl⟩, fun same => ?_⟩
    have root := placed.distinct inside (by omega) same
    split at root <;> omega
  · rintro ⟨⟨i, inside, rfl⟩, apart⟩
    have inner : i ≠ 0 := fun root => apart (by rw [root])
    by_cases last : i = heap.curNum - 1
    · exact ⟨0, by simp only [shrunk]; omega, by rw [rest, if_pos rfl, last]⟩
    · exact ⟨i, by simp only [shrunk]; omega, by rw [rest, if_neg inner]⟩

theorem popTimer_spec (placed : heap.Placed) (some_ : 0 < heap.curNum) :
    ∃ heap', heap.popTimer = .ok heap' ∧ heap'.curNum = heap.curNum - 1 ∧
      heap.Holds (fun timer => heap.Mem timer ∧ timer ≠ heap.slot 0) heap' ∧ (heap.Ordered → heap'.Ordered) := by
  have start : 0 < heap.shrunk.capacity := placed.start
  have found : heap.shrunk.aTimers 0 = some (heap.rest 0) := by
    simp only [shrunk, rest, if_true, Function.update_self]
  rw [placed.popTimer_eq some_]
  by_cases two : 1 < heap.curNum
  · obtain ⟨heap', done, settled, ordered⟩ := heapDown_spec (placed.shrunk_hole two) found
    have holds := settled.holds
    refine ⟨heap', done, settled.frame.curNum, ⟨holds.placed, holds.allocated, holds.timers, fun timer => ?_⟩,
      fun before => ordered ?_⟩
    · rw [holds.members, placed.mem_rest]
    · have size : heap.shrunk.curNum + 1 = heap.curNum := Nat.sub_add_cancel some_
      have whole : HeapOrdered heap.expire (heap.shrunk.curNum + 1) heap.slot := by
        rw [size]
        exact before
      exact whole.replaceRoot _ fun i _ apart => by rw [rest, if_neg apart]
  · -- The last timer sinks in an empty heap.
    have none_ : heap.shrunk.curNum = 0 := by simp only [shrunk]; omega
    obtain ⟨heap', filled, -⟩ := place_succeeds start (heap.rest 0)
    have frame := place_frame filled
    have empty : heap'.curNum = 0 := frame.curNum.trans none_
    have nowhere (i : Nat) : ¬ i < heap'.curNum := by omega
    refine ⟨heap', ?_, frame.curNum, ⟨⟨?_, by omega, fun i small => absurd small (nowhere i),
      fun i small => absurd small (nowhere i), fun i small => absurd small (nowhere i)⟩, frame.allocated, frame.timers,
      fun timer => ?_⟩, fun _ i _ small => absurd small (nowhere i)⟩
    · have loaded := load_eq start found
      simp only [heapDown, loaded, ok_bind, none_, siftDown]
      exact filled
    · rw [frame.capacity]
      exact placed.start
    · rw [← placed.mem_rest, none_, Mem, empty]
      exact ⟨fun ⟨i, small, _⟩ => absurd small (Nat.not_lt_zero i),
        fun ⟨i, small, _⟩ => absurd small (Nat.not_lt_zero i)⟩

/-- The client data that a `Tick` which pops these timers calls back. -/
def called (heap : CTimerHeap) (popped : List TimerPtr) : List Int :=
  (popped.filter fun timer => (heap.timers timer).callbackFunc.isSome).map fun timer => (heap.timers timer).clientData

theorem Holds.called (holds : heap.Holds items heap') (popped : List TimerPtr) :
    heap'.called popped = heap.called popped := by
  simp only [CTimerHeap.called, holds.callbackFunc, holds.clientData]

theorem called_cons (heap : CTimerHeap) (timer : TimerPtr) (popped : List TimerPtr) :
    heap.called (timer :: popped) =
      (if (heap.timers timer).callbackFunc.isSome then [(heap.timers timer).clientData] else []) ++
        heap.called popped := by
  simp only [called, List.filter_cons]
  split <;> rfl

/-- What a `Tick` at `curTime` pops, and what it leaves. -/
structure Ticked (heap : CTimerHeap) (curTime : Int) (popped : List TimerPtr) (heap' : CTimerHeap) : Prop where
  holds : heap.Holds (fun timer => heap.Mem timer ∧ timer ∉ popped) heap'
  nodup : popped.Nodup
  members : ∀ timer ∈ popped, heap.Mem timer
  due : ∀ timer ∈ popped, heap.expire timer ≤ curTime
  ordered : heap.Ordered → heap'.Ordered ∧ ∀ timer, heap'.Mem timer → curTime < heap.expire timer

theorem Placed.ticked (placed : heap.Placed) (curTime : Int)
    (later : heap.Ordered → ∀ timer, heap.Mem timer → curTime < heap.expire timer) : heap.Ticked curTime [] heap :=
  ⟨⟨placed, rfl, fun _ => ⟨_, rfl⟩, by simp⟩, List.nodup_nil, by simp, by simp,
    fun ordered => ⟨ordered, later ordered⟩⟩

/-- Popping the root, and what the rounds after it do. -/
theorem Ticked.after (some_ : 0 < heap.curNum)
    (holds : heap.Holds (fun timer => heap.Mem timer ∧ timer ≠ heap.slot 0) heap₁)
    (ordered : heap.Ordered → heap₁.Ordered) (due : heap.expire (heap.slot 0) ≤ curTime)
    (ticked : heap₁.Ticked curTime popped heap') : heap.Ticked curTime (heap.slot 0 :: popped) heap' := by
  have fresh : heap.slot 0 ∉ popped := fun member => ((holds.members _).mp (ticked.members _ member)).2 rfl
  refine ⟨⟨ticked.holds.placed, ticked.holds.allocated.trans holds.allocated, fun timer => ?_, fun timer => ?_⟩,
    List.nodup_cons.mpr ⟨fresh, ticked.nodup⟩, fun timer member => ?_, fun timer member => ?_, fun before => ?_⟩
  · obtain ⟨_, between⟩ := holds.timers timer
    obtain ⟨pos, after⟩ := ticked.holds.timers timer
    exact ⟨pos, by rw [after, between]⟩
  · rw [ticked.holds.members, holds.members, List.mem_cons, not_or, and_assoc]
  · rcases List.mem_cons.mp member with rfl | later
    · exact ⟨0, some_, rfl⟩
    · exact ((holds.members _).mp (ticked.members _ later)).1
  · rcases List.mem_cons.mp member with rfl | later
    · exact due
    · rw [← holds.expire]
      exact ticked.due timer later
  · rw [← holds.expire]
    exact ticked.ordered (ordered before)

/-- The timers that the rounds of `Tick` pop, one root after the other. -/
def roots (heap : CTimerHeap) (curTime : Int) : Nat → List TimerPtr
  | 0 => []
  | rounds + 1 =>
    if heap.curNum = 0 then []
    else if heap.expire (heap.slot 0) > curTime then []
    else
      heap.slot 0 :: match heap.popTimer with
        | .ok heap => heap.roots curTime rounds
        | .error _ => []

theorem tickLoop_spec (placed : heap.Placed) (curTime : Int) (enough : heap.curNum ≤ rounds) :
    ∃ heap', heap.tickLoop curTime rounds = .ok (heap', heap.called (heap.roots curTime rounds)) ∧
      heap.Ticked curTime (heap.roots curTime rounds) heap' := by
  have empty (none_ : heap.curNum = 0) : heap.Ticked curTime [] heap :=
    placed.ticked curTime fun _ _ ⟨i, small, _⟩ => absurd small (by omega)
  induction rounds generalizing heap with
  | zero => exact ⟨heap, rfl, empty (by omega)⟩
  | succ rounds ih =>
    by_cases none_ : heap.curNum = 0
    · rw [roots, if_pos none_, tickLoop, if_pos none_]
      exact ⟨heap, rfl, empty none_⟩
    · have some_ : 0 < heap.curNum := by omega
      have root := read_eq (some_.trans_le placed.room)
      rw [placed.entry 0 some_] at root
      by_cases later : heap.expire (heap.slot 0) > curTime
      · rw [roots, if_neg none_, if_pos later]
        refine ⟨heap, ?_, placed.ticked curTime fun ordered timer ⟨i, small, found⟩ => ?_⟩
        · simp only [tickLoop, if_neg none_, root, ok_bind, if_pos later]
          rfl
        · rw [← found]
          exact later.trans_le (ordered.root_le small)
      · obtain ⟨heap₁, popped₁, curNum, holds, ordered⟩ := popTimer_spec placed some_
        obtain ⟨heap', rest_, ticked⟩ := ih holds.placed (by omega)
          (fun none_ => holds.placed.ticked curTime fun _ _ ⟨i, small, _⟩ => absurd small (by omega))
        rw [roots, if_neg none_, if_neg later, popped₁]
        refine ⟨heap', ?_, ticked.after some_ holds ordered (not_lt.mp later)⟩
        simp only [tickLoop, if_neg none_, root, ok_bind, if_neg later, popped₁, rest_, holds.called, called_cons]

/-- On a heap in place, `Tick` pops timers that are due, and in order all of them. -/
theorem tick_spec (placed : heap.Placed) (curTime : Int) :
    ∃ heap', heap.tick curTime = .ok (heap', heap.called (heap.roots curTime heap.curNum)) ∧
      heap.Ticked curTime (heap.roots curTime heap.curNum) heap' := by
  obtain ⟨heap', done, ticked⟩ := tickLoop_spec placed curTime le_rfl
  refine ⟨heap', ?_, ticked⟩
  rw [tick, read_eq placed.start, ok_bind]
  exact done

end CTimerHeap

end WSlyh.Timer
