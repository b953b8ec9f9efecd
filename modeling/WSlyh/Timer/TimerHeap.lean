import Mathlib.Logic.Function.Basic

/-! The timer heap, as the code has it: an array of pointers to timers that know their place
in it. -/

namespace WSlyh.Timer

inductive Fault
  | outOfBounds | nullDeref
  deriving DecidableEq, Repr

/-- The functions that `callback_func` is ever set to. -/
inductive Callback
  | callBackFunc
  deriving DecidableEq, Repr

abbrev TimerPtr := Nat

/-- `m_sClientData` points into the array of the client data; `clientData` is the index. -/
structure CHeapTimer where
  callbackFunc : Option Callback
  expireTime : Int
  clientData : Int
  pos : Nat
  deriving DecidableEq, Repr, Inhabited

/-- `timers` are the objects that pointers lead to, which are never freed. Past `capacity`
there is no array. -/
structure CTimerHeap where
  capacity : Nat
  curNum : Nat
  aTimers : Nat → Option TimerPtr
  timers : TimerPtr → CHeapTimer
  allocated : Nat

def CTimerHeap.create (capacity : Nat) : CTimerHeap where
  capacity := capacity
  curNum := 0
  aTimers _ := none
  timers _ := default
  allocated := 0

namespace CTimerHeap

/-- `new CHeapTimer(_delaytime)` when `time` returns `now`. -/
def newTimer (heap : CTimerHeap) (now delaytime : Int) : CTimerHeap × TimerPtr :=
  ({ heap with
      timers := Function.update heap.timers heap.allocated
        { callbackFunc := none, expireTime := now + delaytime, clientData := 0, pos := 0 }
      allocated := heap.allocated + 1 },
    heap.allocated)

def modify (heap : CTimerHeap) (timer : TimerPtr) (change : CHeapTimer → CHeapTimer) : CTimerHeap :=
  { heap with timers := Function.update heap.timers timer (change (heap.timers timer)) }

theorem modify_self (heap : CTimerHeap) (timer : TimerPtr) (change : CHeapTimer → CHeapTimer) :
    (heap.modify timer change).timers timer = change (heap.timers timer) := Function.update_self ..

theorem modify_other (heap : CTimerHeap) (change : CHeapTimer → CHeapTimer) (apart : other ≠ timer) :
    (heap.modify timer change).timers other = heap.timers other := Function.update_of_ne apart ..

def setExpireTime (heap : CTimerHeap) (timer : TimerPtr) (expireTime : Int) : CTimerHeap :=
  heap.modify timer fun node => { node with expireTime }

def expire (heap : CTimerHeap) (timer : TimerPtr) : Int := (heap.timers timer).expireTime

def read (heap : CTimerHeap) (i : Nat) : Except Fault (Option TimerPtr) :=
  if i < heap.capacity then .ok (heap.aTimers i) else .error .outOfBounds

/-- An entry that is about to be followed. -/
def load (heap : CTimerHeap) (i : Nat) : Except Fault TimerPtr := do
  match ← heap.read i with
  | none => .error .nullDeref
  | some timer => .ok timer

/-- Store a timer and note its place in it. -/
def place (heap : CTimerHeap) (i : Nat) (timer : TimerPtr) : Except Fault CTimerHeap :=
  if i < heap.capacity then
    .ok ({ heap with aTimers := Function.update heap.aTimers i (some timer) }.modify timer
      fun node => { node with pos := i })
  else .error .outOfBounds

def smallerChild (heap : CTimerHeap) (heapNode : Nat) : Except Fault Nat := do
  let child := heapNode * 2 + 1
  if child + 1 < heap.curNum then
    let right ← heap.load (child + 1)
    let left ← heap.load child
    if heap.expire right < heap.expire left then .ok (child + 1) else .ok child
  else .ok child

/-- The loop of `HeapDown`, with the node it ends at. It is over within `m_iCurNum` rounds. -/
def siftDown (heap : CTimerHeap) (tmpTimer : TimerPtr) (heapNode : Nat) :
    Nat → Except Fault (CTimerHeap × Nat)
  | 0 => .ok (heap, heapNode)
  | rounds + 1 =>
    if heapNode * 2 + 1 < heap.curNum then do
      let child ← heap.smallerChild heapNode
      let timer ← heap.load child
      if heap.expire tmpTimer > heap.expire timer then
        let heap ← heap.place heapNode timer
        heap.siftDown tmpTimer child rounds
      else .ok (heap, heapNode)
    else .ok (heap, heapNode)

def heapDown (heap : CTimerHeap) (heapNode : Nat) : Except Fault CTimerHeap := do
  let tmpTimer ← heap.load heapNode
  let (heap, node) ← heap.siftDown tmpTimer heapNode heap.curNum
  heap.place node tmpTimer

/-- `Resize`: the entries in use are copied to a new array of null pointers. -/
def resize (heap : CTimerHeap) : CTimerHeap :=
  { heap with
    capacity := heap.capacity * 2
    aTimers := fun i => if i < heap.curNum then heap.aTimers i else none }

/-- The loop of `AddTimer`, with the node it ends at. -/
def siftUp (heap : CTimerHeap) (addTimer : TimerPtr) (lastNode : Nat) : Nat → Except Fault (CTimerHeap × Nat)
  | 0 => .ok (heap, lastNode)
  | rounds + 1 =>
    if lastNode > 0 then do
      let parent := (lastNode - 1) / 2
      let timer ← heap.load parent
      if heap.expire timer > heap.expire addTimer then
        let heap ← heap.place lastNode timer
        heap.siftUp addTimer parent rounds
      else .ok (heap, lastNode)
    else .ok (heap, lastNode)

def addTimer (heap : CTimerHeap) : Option TimerPtr → Except Fault CTimerHeap
  | none => .ok heap
  | some timer => do
    let heap := if heap.curNum ≥ heap.capacity then heap.resize else heap
    let lastNode := heap.curNum
    let heap := { heap with curNum := heap.curNum + 1 }
    let (heap, node) ← heap.siftUp timer lastNode lastNode
    heap.place node timer

def adjust (heap : CTimerHeap) (timer : TimerPtr) : Except Fault CTimerHeap :=
  heap.heapDown (heap.timers timer).pos

def delTimer (heap : CTimerHeap) : Option TimerPtr → CTimerHeap
  | none => heap
  | some timer => heap.modify timer fun node => { node with callbackFunc := none }

def popTimer (heap : CTimerHeap) : Except Fault CTimerHeap :=
  if heap.curNum = 0 then .ok heap
  else do
    match ← heap.read 0 with
    | none => .ok heap
    | some _ =>
      let last ← heap.read (heap.curNum - 1)
      { heap with curNum := heap.curNum - 1, aTimers := Function.update heap.aTimers 0 last }.heapDown 0

/-- The loop of `Tick`, which is over within `m_iCurNum` rounds. The callbacks do not look at
the heap; the client data they are called with is returned, in order. -/
def tickLoop (heap : CTimerHeap) (curTime : Int) : Nat → Except Fault (CTimerHeap × List Int)
  | 0 => .ok (heap, [])
  | rounds + 1 =>
    if heap.curNum = 0 then .ok (heap, [])
    else do
      match ← heap.read 0 with
      | none => .ok (heap, [])
      | some tmpTimer =>
        if heap.expire tmpTimer > curTime then .ok (heap, [])
        else
          let node := heap.timers tmpTimer
          let called := if node.callbackFunc.isSome then [node.clientData] else []
          let heap ← heap.popTimer
          let (heap, later) ← heap.tickLoop curTime rounds
          .ok (heap, called ++ later)

/-- `Tick` when `time` returns `curTime`. -/
def tick (heap : CTimerHeap) (curTime : Int) : Except Fault (CTimerHeap × List Int) := do
  let _ ← heap.read 0
  heap.tickLoop curTime heap.curNum

end CTimerHeap

end WSlyh.Timer
