import WSlyh.Log.Recovery

/-! The stores to shared memory by which the ring grows and by which a cell is cleared, one
by one, and what the first few of them make of the ids. -/

namespace WSlyh.Log

open Libc Lib

def CBufferCell.setPre (cell : CBufferCell) (pre : CellPtr) : CBufferCell := { cell with pre := some pre }
def CBufferCell.setPreShmId (cell : CBufferCell) (preShmId : Int) : CBufferCell := { cell with preShmId }
def CBufferCell.setNext (cell : CBufferCell) (next : CellPtr) : CBufferCell := { cell with next := some next }
def CBufferCell.setNextShmId (cell : CBufferCell) (nextShmId : Int) : CBufferCell := { cell with nextShmId }

/-- The stores of a growth, in the order of the source. -/
def Shm.spliceStores (curBuf newBuffer nextBuf : CellPtr) : List (Shm → Shm) := [
  fun shm => shm.modify newBuffer (·.setPre curBuf),
  fun shm => shm.modify newBuffer (·.setPreShmId (shm.deref curBuf).shmId),
  fun shm => shm.modify curBuf (·.setNext newBuffer),
  fun shm => shm.modify curBuf (·.setNextShmId (shm.deref newBuffer).shmId),
  fun shm => shm.modify newBuffer (·.setNext nextBuf),
  fun shm => shm.modify newBuffer (·.setNextShmId (shm.deref nextBuf).shmId),
  fun shm => shm.modify nextBuf (·.setPre newBuffer),
  fun shm => shm.modify nextBuf (·.setPreShmId (shm.deref newBuffer).shmId)]

/-- The stores of `ClearBuffer`. The `memset` is to bytes that no longer count. -/
def Shm.clearStores (prstBuf : CellPtr) : List (Shm → Shm) := [
  fun shm => shm.modify prstBuf fun cell => { cell with aData := [] },
  fun shm => shm,
  fun shm => shm.modify prstBuf fun cell => { cell with status := .free }]

def Shm.storeAll (shm : Shm) (stores : List (Shm → Shm)) : Shm := stores.foldl (fun shm store => store shm) shm

namespace Shm

variable {shm : Shm} {curBuf newBuffer nextBuf prstBuf : CellPtr}

theorem modify_modify (shm : Shm) (cell : CellPtr) (first second : CBufferCell → CBufferCell) :
    (shm.modify cell first).modify cell second = shm.modify cell fun c => second (first c) := by
  have cells : ((shm.modify cell first).modify cell second).cell =
    (shm.modify cell fun c => second (first c)).cell := by
    funext id
    simp only [modify]
    split <;> rfl
  simp only [modify] at cells ⊢
  rw [cells]

/-- Two changes of different fields may be made in either order. -/
theorem modify_comm (shm : Shm) (cell other : CellPtr) {first second : CBufferCell → CBufferCell}
    (commute : ∀ c, first (second c) = second (first c)) :
    (shm.modify cell first).modify other second = (shm.modify other second).modify cell first := by
  have cells : ((shm.modify cell first).modify other second).cell =
      ((shm.modify other second).modify cell first).cell := by
    funext id
    simp only [modify]
    split <;> split
    · exact (commute _).symm
    · rfl
    · rfl
    · rfl
  simp only [modify] at cells ⊢
  rw [cells]

/-- A change of the links keeps the id that a cell has of itself. -/
theorem shmId_modify (shm : Shm) (cell other : CellPtr) {change : CBufferCell → CBufferCell}
    (keeps : ∀ c, (change c).shmId = c.shmId) :
    ((shm.modify cell change).deref other).shmId = (shm.deref other).shmId := by
  rw [deref_modify]
  split
  · exact keeps _
  · rfl

@[simp] theorem shmId_setPre (shm : Shm) (cell other pre : CellPtr) :
    ((shm.modify cell (·.setPre pre)).deref other).shmId = (shm.deref other).shmId :=
  shm.shmId_modify cell other fun _ => rfl

@[simp] theorem shmId_setPreShmId (shm : Shm) (cell other : CellPtr) (preShmId : Int) :
    ((shm.modify cell (·.setPreShmId preShmId)).deref other).shmId = (shm.deref other).shmId :=
  shm.shmId_modify cell other fun _ => rfl

@[simp] theorem shmId_setNext (shm : Shm) (cell other next : CellPtr) :
    ((shm.modify cell (·.setNext next)).deref other).shmId = (shm.deref other).shmId :=
  shm.shmId_modify cell other fun _ => rfl

@[simp] theorem shmId_setNextShmId (shm : Shm) (cell other : CellPtr) (nextShmId : Int) :
    ((shm.modify cell (·.setNextShmId nextShmId)).deref other).shmId = (shm.deref other).shmId :=
  shm.shmId_modify cell other fun _ => rfl

@[simp] theorem nextShmId_setPre (shm : Shm) (cell pre : CellPtr) (id : Int) :
    ((shm.modify cell (·.setPre pre)).cell id).nextShmId = (shm.cell id).nextShmId := by
  simp only [modify]
  split <;> rfl

@[simp] theorem nextShmId_setPreShmId (shm : Shm) (cell : CellPtr) (preShmId id : Int) :
    ((shm.modify cell (·.setPreShmId preShmId)).cell id).nextShmId = (shm.cell id).nextShmId := by
  simp only [modify]
  split <;> rfl

@[simp] theorem nextShmId_setNext (shm : Shm) (cell next : CellPtr) (id : Int) :
    ((shm.modify cell (·.setNext next)).cell id).nextShmId = (shm.cell id).nextShmId := by
  simp only [modify]
  split <;> rfl

@[simp] theorem nextShmId_setNextShmId (shm : Shm) (cell : CellPtr) (nextShmId id : Int) :
    ((shm.modify cell (·.setNextShmId nextShmId)).cell id).nextShmId =
      if id = cell.shmId then nextShmId else (shm.cell id).nextShmId := by
  simp only [modify]
  split <;> rfl

/-- How far the stores have come with the ids: the first ones leave them alone, then the new
cell is named, and only later does it name the next one. -/
theorem splice_early (shm : Shm) (id : Int) (early : done < 4) :
    ((shm.storeAll ((spliceStores curBuf newBuffer nextBuf).take done)).cell id).nextShmId =
      (shm.cell id).nextShmId := by
  interval_cases done <;> simp [storeAll, spliceStores]

theorem splice_dangling (shm : Shm) (id : Int) (started : 4 ≤ done) (early : done < 6) :
    ((shm.storeAll ((spliceStores curBuf newBuffer nextBuf).take done)).cell id).nextShmId =
      if id = curBuf.shmId then (shm.deref newBuffer).shmId else (shm.cell id).nextShmId := by
  interval_cases done <;> simp [storeAll, spliceStores] <;> rfl

theorem splice_late (shm : Shm) (id : Int) (late : 6 ≤ done) (bound : done ≤ 8) :
    ((shm.storeAll ((spliceStores curBuf newBuffer nextBuf).take done)).cell id).nextShmId =
      if id = newBuffer.shmId then (shm.deref nextBuf).shmId
      else if id = curBuf.shmId then (shm.deref newBuffer).shmId else (shm.cell id).nextShmId := by
  interval_cases done <;> simp [storeAll, spliceStores] <;> rfl

theorem storeAll_keeps {stores : List (Shm → Shm)} (f : Shm → β)
    (keeps : ∀ store ∈ stores, ∀ shm, f (store shm) = f shm)
    (shm : Shm) : f (shm.storeAll stores) = f shm := by
  induction stores generalizing shm with
  | nil => rfl
  | cons store stores ih =>
    exact (ih (fun other member => keeps other (by simp [member])) (store shm)).trans (keeps store (by simp) shm)

theorem storeAll_succ {stores : List (Shm → Shm)} {store : Shm → Shm} (shm : Shm)
    (found : stores[done]? = some store) :
    store (shm.storeAll (stores.take done)) = shm.storeAll (stores.take (done + 1)) := by
  rw [List.take_add_one, found, storeAll, storeAll, List.foldl_append]
  rfl

/-- No store adds or removes a segment, and the stores of a growth touch neither the data nor
the id that a cell has of itself. -/
theorem splice_keeps (shm : Shm) (done : Nat) :
    (shm.storeAll ((spliceStores curBuf newBuffer nextBuf).take done)).segments = shm.segments ∧
      ∀ id, ((shm.storeAll ((spliceStores curBuf newBuffer nextBuf).take done)).cell id).aData = (shm.cell id).aData ∧
        ((shm.storeAll ((spliceStores curBuf newBuffer nextBuf).take done)).cell id).shmId = (shm.cell id).shmId := by
  have known {store : Shm → Shm} (member : store ∈ (spliceStores curBuf newBuffer nextBuf).take done) :=
    List.mem_of_mem_take member
  simp only [spliceStores, List.mem_cons, List.not_mem_nil, or_false] at known
  refine ⟨?_, fun id => ⟨?_, ?_⟩⟩
  · apply storeAll_keeps Shm.segments
    intro store member shm
    rcases known member with rfl | rfl | rfl | rfl | rfl | rfl | rfl | rfl <;> rfl
  · apply storeAll_keeps fun shm => (shm.cell id).aData
    intro store member shm
    rcases known member with rfl | rfl | rfl | rfl | rfl | rfl | rfl | rfl <;> simp only [modify] <;> split <;> rfl
  · apply storeAll_keeps fun shm => (shm.cell id).shmId
    intro store member shm
    rcases known member with rfl | rfl | rfl | rfl | rfl | rfl | rfl | rfl <;> simp only [modify] <;> split <;> rfl

/-- The stores of `ClearBuffer` leave the links and the segments alone. -/
theorem clear_keeps (shm : Shm) (done : Nat) :
    (shm.storeAll ((clearStores prstBuf).take done)).segments = shm.segments ∧
      ∀ id, ((shm.storeAll ((clearStores prstBuf).take done)).cell id).nextShmId = (shm.cell id).nextShmId := by
  constructor
  · apply storeAll_keeps Shm.segments
    intro store member shm
    have known := List.mem_of_mem_take member
    simp only [clearStores, List.mem_cons, List.not_mem_nil, or_false] at known
    rcases known with rfl | rfl | rfl <;> rfl
  · intro id
    apply storeAll_keeps fun shm => (shm.cell id).nextShmId
    intro store member shm
    have known := List.mem_of_mem_take member
    simp only [clearStores, List.mem_cons, List.not_mem_nil, or_false] at known
    rcases known with rfl | rfl | rfl
    · simp only [modify]
      split <;> rfl
    · rfl
    · simp only [modify]
      split <;> rfl

theorem link_eq (shm : Shm) (front back : CellPtr) :
    shm.link front back = (shm.modify back fun cell => (cell.setPre front).setPreShmId (shm.deref front).shmId).modify
      front fun cell => (cell.setNext back).setNextShmId (shm.deref back).shmId := by
  have read := @shmId_modify shm back back (fun cell => (cell.setPre front).setPreShmId (shm.deref front).shmId)
    fun _ => rfl
  rw [← read]
  rfl

theorem splice_full (curBuf newBuffer nextBuf : CellPtr) :
    (spliceStores curBuf newBuffer nextBuf).take 8 = spliceStores curBuf newBuffer nextBuf := rfl

/-- All stores together link the new cell in on both sides. -/
theorem splice_all (shm : Shm) (curBuf newBuffer nextBuf : CellPtr) :
    shm.storeAll (spliceStores curBuf newBuffer nextBuf) = (shm.link curBuf newBuffer).link newBuffer nextBuf := by
  have front : shm.storeAll ((spliceStores curBuf newBuffer nextBuf).take 4) = shm.link curBuf newBuffer := by
    simp only [storeAll, spliceStores, List.take_succ_cons, List.take_zero, List.foldl_cons, List.foldl_nil,
      shmId_setPre, shmId_setPreShmId, shmId_setNext]
    rw [modify_modify, modify_modify, link_eq]
  have back (shm : Shm) :
    shm.storeAll ((spliceStores curBuf newBuffer nextBuf).drop 4) = shm.link newBuffer nextBuf := by
    simp only [storeAll, spliceStores, List.drop_succ_cons, List.drop_zero, List.foldl_cons, List.foldl_nil,
      shmId_setPre, shmId_setNext, shmId_setNextShmId]
    rw [modify_modify, modify_modify, modify_comm, link_eq]
    intro c
    rfl
  have whole : shm.storeAll (spliceStores curBuf newBuffer nextBuf) =
      (shm.storeAll ((spliceStores curBuf newBuffer nextBuf).take 4)).storeAll
        ((spliceStores curBuf newBuffer nextBuf).drop 4) := rfl
  rw [whole, front, back]

theorem clear_all (shm : Shm) (prstBuf : CellPtr) :
    shm.storeAll (clearStores prstBuf) = shm.modify prstBuf CBufferCell.clearBuffer := by
  simp only [storeAll, clearStores, List.foldl_cons, List.foldl_nil, modify_modify]
  rfl

end Shm

end WSlyh.Log
