import Mathlib.Algebra.Group.Nat.Defs
import WSlyh.Timer.Firing

/-! What `Adjust` can repair, and how far a timer moves: `HeapDown` lets it sink only, and neither loop makes more
rounds than the heap has levels. -/

namespace WSlyh.Timer

open Lib

section Order

variable [LinearOrder β] {key : α → β} {n hole : Nat} {slot : Nat → α}

/-- An item whose key has changed may have to go down, unless it has to go up. -/
theorem sinking_of_above (ordered : HeapOrdered key n slot) (key' : α → β)
    (same : ∀ i < n, i ≠ hole → key' (slot i) = key (slot i)) (inside : hole < n)
    (above : 0 < hole → key (slot (parent hole)) ≤ key' (slot hole)) : Sinking key' n slot hole := by
  refine ⟨fun i positive small other => ?_, fun i positive small under inner => ?_⟩
  · have higher := parent_lt positive
    rw [same _ (higher.trans small) other]
    by_cases here : i = hole
    · rw [here]
      exact above (by omega)
    · rw [same i small here]
      exact ordered i positive small
  · have higher := parent_lt inner
    have lower := parent_lt positive
    rw [same _ (higher.trans inside) (by omega), same i small (by omega)]
    have first := ordered hole inner inside
    have second := ordered i positive small
    rw [under] at second
    exact first.trans second

end Order

namespace CTimerHeap

variable {heap heap' : CTimerHeap} {slot : Nat → TimerPtr} {node : Nat}

/-- A timer that is due before its children stays where it is. -/
theorem siftDown_stays (hole : heap.Hole slot node)
    (first : ∀ i, 0 < i → i < heap.curNum → parent i = node → heap.expire (slot node) ≤ heap.expire (slot i))
    (rounds : Nat) : heap.siftDown (slot node) node rounds = .ok (heap, node) := by
  cases rounds with
  | zero => rfl
  | succ rounds =>
    by_cases inside : node * 2 + 1 < heap.curNum
    · obtain ⟨child, chosen, positive, small, under, _⟩ := smallerChild_spec hole inside
      have below := parent_lt positive
      have loaded := hole.load small (by omega)
      have less := not_lt.mpr (first child positive small under)
      simp only [siftDown, if_pos inside, chosen, loaded, ok_bind, gt_iff_lt, if_neg less]
    · rw [siftDown, if_neg inside]

/-- A timer that has become due before the one above it is left there, and the order is lost. -/
theorem heapDown_loses (hole : heap.Hole slot node) (found : heap.aTimers node = some (slot node)) (inner : 0 < node)
    (first : ∀ i, 0 < i → i < heap.curNum → parent i = node → heap.expire (slot node) ≤ heap.expire (slot i))
    (early : heap.expire (slot node) < heap.expire (slot (parent node))) :
    ∃ heap', heap.heapDown node = .ok heap' ∧ ¬ heap'.Ordered := by
  have loaded := load_eq (hole.inside.trans_le hole.room) found
  obtain ⟨heap', filled, _, frame, slots⟩ := hole.fill
  refine ⟨heap', ?_, fun ordered => ?_⟩
  · simp only [heapDown, loaded, ok_bind, siftDown_stays hole first]
    exact filled
  · have above := parent_lt inner
    have here := ordered node inner (by rw [frame.curNum]; exact hole.inside)
    rw [slots node hole.inside, slots _ (above.trans hole.inside), frame.expire] at here
    exact absurd early (not_lt.mpr here)

/-- The timer is due no earlier than the one above it, if there is one. -/
def NoEarlier (heap : CTimerHeap) (timer : TimerPtr) (expireTime : Int) : Prop :=
  ∀ node < heap.curNum, heap.slot node = timer → 0 < node → heap.expire (heap.slot (parent node)) ≤ expireTime

/-- The other timers keep their times. -/
theorem expire_set_other (apart : other ≠ timer) (expireTime : Int) :
    (heap.setExpireTime timer expireTime).expire other = heap.expire other :=
  congrArg CHeapTimer.expireTime (modify_other _ _ apart)

theorem expire_set_self (heap : CTimerHeap) (timer : TimerPtr) (expireTime : Int) :
    (heap.setExpireTime timer expireTime).expire timer = expireTime := by
  simp only [expire, setExpireTime, modify_self]

/-- `Adjust` after any change of a timer's time restores the order of the heap exactly where the timer
need not go up. -/
theorem adjust_ordered_iff {timer : TimerPtr} (placed : heap.Placed) (ordered : heap.Ordered) (member : heap.Mem timer)
    (expireTime : Int) : ∃ heap', (heap.setExpireTime timer expireTime).adjust timer = .ok heap' ∧
      (heap'.Ordered ↔ heap.NoEarlier timer expireTime) := by
  obtain ⟨node, inside, found⟩ := member
  have changed : (heap.setExpireTime timer expireTime).Placed :=
    placed.modify timer (fun node => { node with expireTime }) fun _ => rfl
  have pos : ((heap.setExpireTime timer expireTime).timers timer).pos = node := by
    have place : (heap.setExpireTime timer expireTime).slot node = timer := found
    have here := changed.pos node inside
    rwa [place] at here
  have apart (i : Nat) (small : i < heap.curNum) (other : i ≠ node) : heap.slot i ≠ timer := fun same =>
    other (placed.distinct small inside (same.trans found.symm))
  have others (i : Nat) (small : i < heap.curNum) (other : i ≠ node) :
      (heap.setExpireTime timer expireTime).expire (heap.slot i) = heap.expire (heap.slot i) :=
    expire_set_other (apart i small other) expireTime
  have own : (heap.setExpireTime timer expireTime).expire (heap.slot node) = expireTime := by
    rw [found]
    exact expire_set_self heap timer expireTime
  have hole := changed.hole inside
  have entry := changed.entry node inside
  rw [adjust, pos]
  by_cases above : 0 < node → heap.expire (heap.slot (parent node)) ≤ expireTime
  · obtain ⟨heap', done, _, restored⟩ := heapDown_spec hole entry
    refine ⟨heap', done, iff_of_true (restored (sinking_of_above ordered _ others inside fun inner => ?_)) ?_⟩
    · rw [own]
      exact above inner
    · intro i small same inner
      obtain rfl := placed.distinct small inside (same.trans found.symm)
      exact above inner
  · obtain ⟨inner, early⟩ := Classical.not_imp.mp above
    have higher := parent_lt inner
    have due : expireTime < heap.expire (heap.slot (parent node)) := not_le.mp early
    have first (i : Nat) (positive : 0 < i) (small : i < heap.curNum) (under : parent i = node) :
        (heap.setExpireTime timer expireTime).expire (heap.slot node) ≤
          (heap.setExpireTime timer expireTime).expire (heap.slot i) := by
      have lower := parent_lt positive
      have upper := ordered node inner inside
      have below := ordered i positive small
      rw [under] at below
      rw [own, others i small (by omega)]
      exact due.le.trans (upper.trans below)
    have overtakes : (heap.setExpireTime timer expireTime).expire (heap.slot node) <
        (heap.setExpireTime timer expireTime).expire (heap.slot (parent node)) := by
      rw [own, others _ (higher.trans inside) (by omega)]
      exact due
    obtain ⟨heap', done, lost⟩ := heapDown_loses hole entry inner first overtakes
    exact ⟨heap', done, iff_of_false lost fun noEarlier => early (noEarlier node inside found inner)⟩

/-- The clock was set back: a timer is renewed to a second before that of the root. -/
theorem threeTimers_loses : ∃ heap', (threeTimers.setExpireTime 2 (-1)).adjust 2 = .ok heap' ∧ ¬ heap'.Ordered := by
  obtain ⟨heap', done, iff_⟩ := adjust_ordered_iff threeTimers_placed threeTimers_ordered ⟨2, by decide, rfl⟩ (-1)
  refine ⟨heap', done, fun ordered => ?_⟩
  have above := iff_.mp ordered 2 (by decide) rfl (by decide)
  exact absurd above (by decide)

/-- `HeapDown` with so many rounds of its loop. -/
def heapDownIn (rounds : Nat) (heap : CTimerHeap) (heapNode : Nat) : Except Fault CTimerHeap := do
  let tmpTimer ← heap.load heapNode
  let (heap, node) ← heap.siftDown tmpTimer heapNode rounds
  heap.place node tmpTimer

/-- `AddTimer` with so many rounds of its loop. -/
def addTimerIn (rounds : Nat) (heap : CTimerHeap) (timer : TimerPtr) : Except Fault CTimerHeap := do
  let heap := if heap.curNum ≥ heap.capacity then heap.resize else heap
  let lastNode := heap.curNum
  let heap := { heap with curNum := heap.curNum + 1 }
  let (heap, node) ← heap.siftUp timer lastNode rounds
  heap.place node timer

/-- The child that `HeapDown` looks at is one level lower. -/
theorem of_smallerChild (chosen : heap.smallerChild node = .ok child) : node * 2 + 1 ≤ child := by
  unfold smallerChild at chosen
  dsimp only at chosen
  split at chosen
  · cases right : heap.load (node * 2 + 1 + 1) with
    | error fault =>
      rw [right] at chosen
      cases chosen
    | ok first =>
      cases left : heap.load (node * 2 + 1) with
      | error fault =>
        rw [right, left] at chosen
        cases chosen
      | ok second =>
        rw [right, left] at chosen
        simp only [ok_bind] at chosen
        split at chosen
        · cases chosen
          omega
        · cases chosen
          exact le_rfl
  · cases chosen
    exact le_rfl

theorem siftDown_leaf {tmpTimer : TimerPtr} (leaf : ¬ node * 2 + 1 < heap.curNum) (rounds : Nat) :
    heap.siftDown tmpTimer node rounds = .ok (heap, node) := by
  cases rounds with
  | zero => rfl
  | succ rounds => rw [siftDown, if_neg leaf]

/-- Once the rounds reach below the last level, their number does not matter. -/
theorem siftDown_rounds {tmpTimer : TimerPtr} {rounds rounds' : Nat}
    (enough : heap.curNum < (node + 1) * 2 ^ (rounds + 1))
    (enough' : heap.curNum < (node + 1) * 2 ^ (rounds' + 1)) :
    heap.siftDown tmpTimer node rounds = heap.siftDown tmpTimer node rounds' := by
  induction rounds generalizing heap node rounds' with
  | zero =>
    have leaf : ¬ node * 2 + 1 < heap.curNum := by omega
    rw [siftDown_leaf leaf, siftDown_leaf leaf]
  | succ rounds ih =>
    by_cases inside : node * 2 + 1 < heap.curNum
    · obtain ⟨more, rfl⟩ : ∃ more, rounds' = more + 1 := by
        cases rounds' with
        | zero => omega
        | succ more => exact ⟨more, rfl⟩
      simp only [siftDown, if_pos inside]
      cases chosen : heap.smallerChild node with
      | error fault => rfl
      | ok child =>
        have lower := of_smallerChild chosen
        simp only [ok_bind]
        cases loaded : heap.load child with
        | error fault => rfl
        | ok timer =>
          simp only [ok_bind]
          split
          · cases moved : heap.place node timer with
            | error fault => rfl
            | ok heap₁ =>
              have frame := place_frame moved
              have wide (rounds : Nat) (enough : heap.curNum < (node + 1) * 2 ^ (rounds + 1 + 1)) :
                  heap₁.curNum < (child + 1) * 2 ^ (rounds + 1) := by
                rw [frame.curNum]
                rw [Nat.pow_succ', ← Nat.mul_assoc] at enough
                exact enough.trans_le (Nat.mul_le_mul_right _ (by omega))
              simp only [ok_bind]
              exact ih (wide rounds enough) (wide more enough')
          · rfl
    · rw [siftDown_leaf inside, siftDown_leaf inside]

theorem siftUp_rounds {timer : TimerPtr} {rounds rounds' : Nat} (enough : node + 1 < 2 ^ (rounds + 1))
    (enough' : node + 1 < 2 ^ (rounds' + 1)) : heap.siftUp timer node rounds = heap.siftUp timer node rounds' := by
  have stops (heap : CTimerHeap) (rounds : Nat) : heap.siftUp timer 0 rounds = .ok (heap, 0) := by
    cases rounds with
    | zero => rfl
    | succ rounds => rw [siftUp, if_neg (lt_irrefl 0)]
  induction rounds generalizing heap node rounds' with
  | zero =>
    obtain rfl : node = 0 := by omega
    rw [stops, stops]
  | succ rounds ih =>
    rcases Nat.eq_zero_or_pos node with rfl | positive
    · rw [stops, stops]
    · obtain ⟨more, rfl⟩ : ∃ more, rounds' = more + 1 := by
        cases rounds' with
        | zero => omega
        | succ more => exact ⟨more, rfl⟩
      simp only [siftUp, if_pos positive]
      cases loaded : heap.load ((node - 1) / 2) with
      | error fault => rfl
      | ok above =>
        simp only [ok_bind]
        split
        · cases moved : heap.place node above with
          | error fault => rfl
          | ok heap₁ =>
            have half (rounds : Nat) (enough : node + 1 < 2 ^ (rounds + 1 + 1)) :
              (node - 1) / 2 + 1 < 2 ^ (rounds + 1) := by
              rw [Nat.pow_succ] at enough
              omega
            simp only [ok_bind]
            exact ih (half rounds enough) (half more enough')
        · rfl

/-- The loops of `HeapDown` and `AddTimer` make no more rounds than the binary logarithm of the number of timers. -/
theorem sifts_within_log (heap : CTimerHeap) :
    (∀ node, heap.heapDown node = heap.heapDownIn heap.curNum.log2 node) ∧
      ∀ timer, heap.addTimer (some timer) = heap.addTimerIn (heap.curNum + 1).log2 timer := by
  have power (n : Nat) : n < 2 ^ (n + 1) := (Nat.lt_succ_self n).trans Nat.lt_two_pow_self
  constructor
  · intro node
    have wide (rounds : Nat) (enough : heap.curNum < 2 ^ (rounds + 1)) : heap.curNum < (node + 1) * 2 ^ (rounds + 1) :=
      enough.trans_le (Nat.le_mul_of_pos_left _ (Nat.succ_pos node))
    unfold heapDown heapDownIn
    cases heap.load node with
    | error fault => rfl
    | ok tmpTimer =>
      simp only [ok_bind]
      rw [siftDown_rounds (wide _ (power _)) (wide _ Nat.lt_log2_self)]
  · intro timer
    have same : (if heap.curNum ≥ heap.capacity then heap.resize else heap).curNum = heap.curNum := by
      split <;> rfl
    simp only [addTimer, addTimerIn, same]
    rw [siftUp_rounds (Nat.lt_two_pow_self (n := heap.curNum + 1)) Nat.lt_log2_self]

end CTimerHeap

end WSlyh.Timer
