import WSlyh.Libc

/-! The cells of the log, each in a shared memory segment of its own. -/

namespace WSlyh.Log

open Libc

/-- What `shmat` returns. Attaching a segment again gives another address of the same bytes. -/
structure CellPtr where
  shmId : Int
  attachment : Nat
  deriving DecidableEq, Repr

inductive BufferStatus
  | free | full
  deriving DecidableEq, Repr

/-- `aData` holds the first `m_uCurLength` bytes of `m_aData`. -/
structure CBufferCell where
  status : BufferStatus
  preShmId : Int
  nextShmId : Int
  pre : Option CellPtr
  next : Option CellPtr
  shmId : Int
  aData : Bytes
  tolLength : Nat
  deriving DecidableEq, Repr

def CBufferCell.create (shmId : Int) (len : Nat) : CBufferCell where
  status := .free
  preShmId := -1
  nextShmId := -1
  pre := none
  next := none
  shmId := shmId
  aData := []
  tolLength := len

def CBufferCell.curLength (cell : CBufferCell) : Nat := cell.aData.length

def CBufferCell.getFreeLen (cell : CBufferCell) : Nat := cell.tolLength - cell.curLength

def CBufferCell.isEmpty (cell : CBufferCell) : Bool := cell.curLength == 0

def CBufferCell.append (cell : CBufferCell) (logData : Bytes) : CBufferCell :=
  if cell.getFreeLen < logData.length then cell else { cell with aData := cell.aData ++ logData }

def CBufferCell.clearBuffer (cell : CBufferCell) : CBufferCell :=
  { cell with aData := [], status := .free }

/-- What `Persist` writes to the file, when `fwrite` takes it all. -/
def CBufferCell.persist (cell : CBufferCell) : Bytes := cell.aData

/-- The segments of the system: their keys and ids, and the cell in each of them. No two
segments have the same id, no id is negative, and a new segment gets an id that none has had. -/
structure Shm where
  segments : List (Int × Int)
  cell : Int → CBufferCell
  nextShmId : Int
  attachments : Nat
  numbered : 0 ≤ nextShmId
  fresh : ∀ entry ∈ segments, 0 ≤ entry.2 ∧ entry.2 < nextShmId
  distinct : (segments.map Prod.snd).Nodup

def Shm.empty : Shm := ⟨[], fun id => .create id 0, 0, 0, le_rfl, by simp, by simp⟩

/-- The segment that a key stands for. -/
def Shm.lookup (shm : Shm) (key : Int) : Option Int := shm.segments.lookup key

theorem mem_of_lookup {entries : List (Int × Int)} (found : entries.lookup key = some shmId) :
    (key, shmId) ∈ entries := by
  induction entries with
  | nil => cases found
  | cons entry rest ih =>
    rw [List.lookup_cons] at found
    split at found
    · rename_i same
      rw [beq_iff_eq.mp same, ← Option.some.inj found]
      exact List.mem_cons_self
    · exact List.mem_cons_of_mem _ (ih found)

theorem Shm.lookup_injective {shm : Shm} (found : shm.lookup key = some shmId) (other : shm.lookup key' = some shmId) :
    key = key' := by
  have same := List.inj_on_of_nodup_map shm.distinct (mem_of_lookup found) (mem_of_lookup other) rfl
  exact (Prod.mk.inj same).1

/-- `shmget`: the segment of the key, created where there is none. -/
def Shm.shmget (shm : Shm) (key : Int) : Shm × Int :=
  match shm.lookup key with
  | some id => (shm, id)
  | none =>
    ({ shm with
        segments := shm.segments ++ [(key, shm.nextShmId)]
        nextShmId := shm.nextShmId + 1
        numbered := by
          have := shm.numbered
          omega
        fresh := by
          intro entry member
          rcases List.mem_append.mp member with old | new
          · have := shm.fresh entry old
            omega
          · rw [List.mem_singleton.mp new]
            have := shm.numbered
            simp [this]
        distinct := by
          rw [List.map_append, List.nodup_append]
          refine ⟨shm.distinct, by simp, ?_⟩
          intro id old id' new
          obtain ⟨entry, member, rfl⟩ := List.mem_map.mp old
          have := shm.fresh entry member
          simp at new
          omega }, shm.nextShmId)

/-- How the two system calls of `CreateCellBuffer` come out. -/
inductive Allocation
  | succeeds | shmgetFails | shmatFails
  deriving DecidableEq, Repr

/-- The ways in which the logger can bring the process down. -/
inductive Fault
  | nullCell | badAddress | assertion
  deriving DecidableEq, Repr

def Shm.deref (shm : Shm) (cell : CellPtr) : CBufferCell := shm.cell cell.shmId

def Shm.modify (shm : Shm) (cell : CellPtr) (change : CBufferCell → CBufferCell) : Shm :=
  { shm with cell := fun id => if id = cell.shmId then change (shm.cell id) else shm.cell id }

/-- `CreateCellBuffer`. A failed `shmat` is not noticed: the cell is written to the address
that stands for the failure. -/
def Shm.createCellBuffer (shm : Shm) (shmKey : Int) (dataLen : Nat) (allocation : Allocation) :
    Except Fault (Shm × Option CellPtr) :=
  match allocation with
  | .shmgetFails => .ok (shm, none)
  | .shmatFails => .error .badAddress
  | .succeeds =>
    let (shm, shmId) := shm.shmget shmKey
    let bc : CellPtr := ⟨shmId, shm.attachments⟩
    .ok ({ shm with attachments := shm.attachments + 1 }.modify bc fun _ => .create shmId dataLen, some bc)

/-- The four stores that make `back` follow `front`. -/
def Shm.link (shm : Shm) (front back : CellPtr) : Shm :=
  let shm := shm.modify back fun cell =>
    { cell with pre := some front, preShmId := (shm.deref front).shmId }
  shm.modify front fun cell =>
    { cell with next := some back, nextShmId := (shm.deref back).shmId }

theorem Shm.deref_modify (shm : Shm) (cell other : CellPtr) (change : CBufferCell → CBufferCell) :
    (shm.modify cell change).deref other =
      if other.shmId = cell.shmId then change (shm.deref other) else shm.deref other := rfl

@[simp] theorem Shm.deref_modify_self (shm : Shm) (cell : CellPtr) (change : CBufferCell → CBufferCell) :
    (shm.modify cell change).deref cell = change (shm.deref cell) := by
  rw [deref_modify, if_pos rfl]

theorem Shm.deref_modify_other {shm : Shm} {cell other : CellPtr} (differ : other.shmId ≠ cell.shmId)
    (change : CBufferCell → CBufferCell) : (shm.modify cell change).deref other = shm.deref other := by
  rw [deref_modify, if_neg differ]

theorem Shm.deref_link (shm : Shm) (front back other : CellPtr) :
    (shm.link front back).deref other =
      { shm.deref other with
        next := if other.shmId = front.shmId then some back else (shm.deref other).next
        nextShmId := if other.shmId = front.shmId then (shm.deref back).shmId else (shm.deref other).nextShmId
        pre := if other.shmId = back.shmId then some front else (shm.deref other).pre
        preShmId := if other.shmId = back.shmId then (shm.deref front).shmId else (shm.deref other).preShmId } := by
  simp only [link, deref_modify]
  split <;> split <;> simp_all

/-- What `CreateCellBuffer` has done when both calls succeeded. -/
structure Shm.Created (shm : Shm) (shmKey : Int) (dataLen : Nat) (shm' : Shm) (bc : CellPtr) : Prop where
  lookup : shm'.lookup shmKey = some bc.shmId
  deref : shm'.deref bc = .create bc.shmId dataLen
  known : ∀ key shmId, shm.lookup key = some shmId → shm'.lookup key = some shmId
  frame : ∀ other : CellPtr, other.shmId ≠ bc.shmId → shm'.deref other = shm.deref other

theorem Shm.shmget_spec (shm : Shm) (key : Int) :
    (shm.shmget key).1.lookup key = some (shm.shmget key).2 ∧
      (∀ other shmId, shm.lookup other = some shmId → (shm.shmget key).1.lookup other = some shmId) ∧
      (shm.shmget key).1.cell = shm.cell := by
  unfold shmget
  cases found : shm.lookup key with
  | some shmId => exact ⟨found, fun _ _ known => known, rfl⟩
  | none =>
    refine ⟨?_, fun other shmId known => ?_, rfl⟩
    · simp only [lookup] at found ⊢
      rw [List.lookup_append, found]
      simp
    · simp only [lookup] at known ⊢
      rw [List.lookup_append, known]
      rfl

theorem Shm.createCellBuffer_succeeds (shm : Shm) (shmKey : Int) (dataLen : Nat) :
    ∃ shm' bc, shm.createCellBuffer shmKey dataLen .succeeds = .ok (shm', some bc) ∧
      shm.Created shmKey dataLen shm' bc := by
  obtain ⟨found, known, cells⟩ := shm.shmget_spec shmKey
  have made : ∃ got id, shm.shmget shmKey = (got, id) := ⟨_, _, rfl⟩
  obtain ⟨got, shmId, same⟩ := made
  rw [same] at found known cells
  unfold createCellBuffer
  rw [same]
  refine ⟨_, _, rfl, found, deref_modify_self .., known, fun other differ => ?_⟩
  rw [deref_modify_other differ]
  exact congrFun cells _

end WSlyh.Log
