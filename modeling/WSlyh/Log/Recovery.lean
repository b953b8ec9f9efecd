import WSlyh.Log.Naming

/-! The recovery tool: after the process has ended it goes through the segments along the ids
in the cells, writes out what is in them, and removes them if it is told to. -/

namespace WSlyh.Log

open Libc Lib

/-- What the tool has made of the segments: the number in the index segment as long as there
is one, leaveLog.log once it is open, the segments that it has attached and those that it has
removed, in order. -/
structure Recovery where
  shm : Shm
  index : Option Int
  leaveLog : Option Bytes
  attached : List Int
  removed : List Int

namespace Recovery

/-- One round of the loop, when the cell is attached and `fwrite` takes it all. -/
def visit (isDel : Bool) (r : Recovery) (currCBShmid : Int) : Recovery :=
  let cf := r.shm.cell currCBShmid
  let r := { r with
    attached := r.attached ++ [currCBShmid]
    leaveLog := if cf.isEmpty then r.leaveLog else some (r.leaveLog.getD [] ++ cf.persist) }
  if isDel then { r with shm := r.shm.remove currCBShmid, removed := r.removed ++ [currCBShmid] } else r

/-- The loop of `main`; `none` when the rounds do not bring it back to the head. -/
def walk (isDel : Bool) (headCBShmid : Int) : Nat → Int → Recovery → Except Fault (Option Recovery)
  | 0, _, _ => .ok none
  | rounds + 1, currCBShmid, r =>
    if r.shm.segments.any (·.2 == currCBShmid) then
      let nextCBShmid := (r.shm.cell currCBShmid).nextShmId
      let r := r.visit isDel currCBShmid
      if headCBShmid = nextCBShmid then .ok (some r) else walk isDel headCBShmid rounds nextCBShmid r
    else .error .badAddress

end Recovery

/-- `main` of the tool. Without an index segment it ends at once. -/
def Shm.recover (shm : Shm) (index : Option Int) (isDel : Bool) (rounds : Nat) : Except Fault (Option Recovery) :=
  match index with
  | none => .ok (some ⟨shm, none, none, [], []⟩)
  | some headCBShmid => do
    match ← Recovery.walk isDel headCBShmid rounds headCBShmid ⟨shm, some headCBShmid, none, [], []⟩ with
    | none => .ok none
    | some r => .ok (some (if isDel then { r with index := none } else r))

/-- The ids in the cells lead once round through `ids`, and these are segments. -/
structure Shm.Loop (shm : Shm) (index : Int) (ids : List Int) : Prop where
  ring : Circular shm.nextId index ids
  segments : ∀ shmId ∈ ids, shm.segments.any (·.2 == shmId) = true

namespace Shm

variable {shm : Shm} {shmId gone : Int}

theorem remove_segments (differ : shmId ≠ gone) (found : shm.segments.any (·.2 == shmId) = true) :
    (shm.remove gone).segments.any (·.2 == shmId) = true := by
  obtain ⟨entry, member, same⟩ := List.any_eq_true.mp found
  apply List.any_eq_true.mpr
  refine ⟨entry, ?_, same⟩
  apply List.mem_filter.mpr
  refine ⟨member, ?_⟩
  rw [beq_iff_eq] at same
  simp [same, differ]

/-- The loop of the next start removes the segments that it meets once round. -/
theorem removeRing_leads {head curr : Int} {ids : List Int} (leads : Leads shm.nextId (curr :: ids) head)
    (fresh : head ∉ ids) (nodup : (curr :: ids).Nodup)
    (segments : ∀ shmId ∈ curr :: ids, shm.segments.any (·.2 == shmId) = true) (rounds : Nat) :
    shm.removeRing head rounds curr =
      .ok (if ids.length < rounds then some ((curr :: ids).foldl remove shm) else none) := by
  induction ids generalizing shm curr rounds with
  | nil =>
    cases rounds with
    | zero => rfl
    | succ rounds =>
      have next : (shm.cell curr).nextShmId = head := Option.some.inj leads.1
      rw [removeRing, if_pos (segments curr (by simp))]
      simp [next]
  | cons b ids ih =>
    cases rounds with
    | zero => rfl
    | succ rounds =>
      have next : (shm.cell curr).nextShmId = b := Option.some.inj leads.1
      have onward : head ≠ b := fun same => fresh (by simp [same])
      obtain ⟨own, nodup'⟩ := List.nodup_cons.mp nodup
      rw [removeRing, if_pos (segments curr (by simp))]
      simp only [next, if_neg onward]
      have leads' : Leads (shm.remove curr).nextId (b :: ids) head := leads.2
      rw [ih leads' (fun member => fresh (by simp [member])) nodup' ?_ rounds]
      · simp
      · intro shmId member
        apply remove_segments
        · rintro rfl
          exact own member
        · exact segments shmId (by simp [member])

end Shm

namespace Recovery

variable {r r' : Recovery} {isDel : Bool} {head curr : Int} {ids : List Int}

theorem visit_cell (r : Recovery) (isDel : Bool) (curr : Int) : (r.visit isDel curr).shm.cell = r.shm.cell := by
  cases isDel <;> rfl

theorem visit_segments (differ : shmId ≠ curr) (found : r.shm.segments.any (·.2 == shmId) = true) :
    (r.visit isDel curr).shm.segments.any (·.2 == shmId) = true := by
  cases isDel with
  | false => exact found
  | true => exact Shm.remove_segments differ found

/-- The tool goes once round, and comes to an end when it has the rounds for it. -/
theorem walk_leads (leads : Leads r.shm.nextId (curr :: ids) head) (fresh : head ∉ ids)
    (nodup : (curr :: ids).Nodup) (segments : ∀ shmId ∈ curr :: ids, r.shm.segments.any (·.2 == shmId) = true)
    (rounds : Nat) :
    walk isDel head rounds curr r =
      .ok (if ids.length < rounds then some ((curr :: ids).foldl (visit isDel) r) else none) := by
  induction ids generalizing r curr rounds with
  | nil =>
    cases rounds with
    | zero => rfl
    | succ rounds =>
      have next : (r.shm.cell curr).nextShmId = head := Option.some.inj leads.1
      rw [walk, if_pos (segments curr (by simp))]
      simp [next]
  | cons b ids ih =>
    cases rounds with
    | zero => rfl
    | succ rounds =>
      have next : (r.shm.cell curr).nextShmId = b := Option.some.inj leads.1
      have onward : head ≠ b := fun same => fresh (by simp [same])
      obtain ⟨own, nodup'⟩ := List.nodup_cons.mp nodup
      have leads' : Leads (r.visit isDel curr).shm.nextId (b :: ids) head := by
        apply leads.2.congr
        intro shmId _
        rw [Shm.nextId, visit_cell]
        rfl
      rw [walk, if_pos (segments curr (by simp))]
      simp only [next, if_neg onward]
      rw [ih leads' (fun member => fresh (by simp [member])) nodup' ?_ rounds]
      · simp
      · intro shmId member
        apply visit_segments
        · rintro rfl
          exact own member
        · exact segments shmId (by simp [member])

/-- leaveLog.log after something has been written to it; for nothing it is not even opened. -/
def written (leaveLog : Option Bytes) (bytes : Bytes) : Option Bytes :=
  if bytes = [] then leaveLog else some (leaveLog.getD [] ++ bytes)

theorem written_append (leaveLog : Option Bytes) (front back : Bytes) :
    written (written leaveLog front) back = written leaveLog (front ++ back) := by
  unfold written
  by_cases none_ : front = []
  · simp [none_]
  · by_cases noMore : back = []
    · simp [noMore]
    · simp [none_, noMore]

theorem getD_written (bytes : Bytes) : (written none bytes).getD [] = bytes := by
  unfold written
  split
  · rename_i none_
    exact none_.symm
  · rfl

theorem visit_leaveLog (r : Recovery) (isDel : Bool) (curr : Int) :
    (r.visit isDel curr).leaveLog = written r.leaveLog (r.shm.cell curr).aData := by
  have empty : (r.shm.cell curr).isEmpty = true ↔ (r.shm.cell curr).aData = [] := by
    simp [CBufferCell.isEmpty, CBufferCell.curLength]
  cases isDel <;> simp [visit, written, empty, CBufferCell.persist]

theorem foldl_leaveLog (r : Recovery) (isDel : Bool) (ids : List Int) :
    (ids.foldl (visit isDel) r).leaveLog = written r.leaveLog (ids.flatMap fun shmId => (r.shm.cell shmId).aData) := by
  induction ids generalizing r with
  | nil => rfl
  | cons curr ids ih => rw [List.foldl_cons, ih, visit_leaveLog, visit_cell, written_append, List.flatMap_cons]

theorem foldl_attached (r : Recovery) (isDel : Bool) (ids : List Int) :
    (ids.foldl (visit isDel) r).attached = r.attached ++ ids ∧ (ids.foldl (visit isDel) r).index = r.index := by
  induction ids generalizing r with
  | nil => simp
  | cons curr ids ih =>
    obtain ⟨attached, index⟩ := ih (r.visit isDel curr)
    rw [List.foldl_cons, attached, index]
    cases isDel <;> simp [visit]

/-- Without `-d` nothing is removed, with it what has been visited. -/
theorem foldl_removed (r : Recovery) (ids : List Int) :
    (ids.foldl (visit false) r).removed = r.removed ∧ (ids.foldl (visit false) r).shm = r.shm ∧
      (ids.foldl (visit true) r).removed = r.removed ++ ids ∧
      (ids.foldl (visit true) r).shm.segments = r.shm.segments.filter (·.2 ∉ ids) := by
  induction ids generalizing r with
  | nil => simp
  | cons curr ids ih =>
    obtain ⟨kept, shm, _, _⟩ := ih (r.visit false curr)
    obtain ⟨_, _, removed, segments⟩ := ih (r.visit true curr)
    rw [List.foldl_cons, List.foldl_cons, kept, shm, removed, segments]
    refine ⟨rfl, rfl, by simp [visit], ?_⟩
    rw [visit, if_pos rfl, Shm.remove, List.filter_filter]
    apply List.filter_congr
    intro entry _
    by_cases here : entry.2 = curr
    · simp [here]
    · simp [here, bne]

end Recovery

/-- `main` around its loop. -/
theorem Shm.recover_of_walk {shm : Shm} {r : Recovery}
    (walks : Recovery.walk isDel index rounds index ⟨shm, some index, none, [], []⟩ =
      .ok (if n < rounds then some r else none)) :
    shm.recover (some index) isDel rounds =
      .ok (if n < rounds then some (if isDel then { r with index := none } else r) else none) := by
  rw [recover, walks]
  by_cases enough : n < rounds
  · simp only [if_pos enough]
    rfl
  · simp only [if_neg enough]
    rfl

/-- The tool on a ring: all that is in the cells, in order, comes to leaveLog.log; with `-d`
each segment of the ring is removed once and the index segment as well. -/
theorem Shm.Loop.recover {shm : Shm} (loop : shm.Loop index ids) (isDel : Bool) (rounds : Nat) :
    ∃ r : Recovery, shm.recover (some index) isDel rounds = .ok (if ids.length ≤ rounds then some r else none) ∧
      r.leaveLog = Recovery.written none (ids.flatMap fun shmId => (shm.cell shmId).aData) ∧ r.attached = ids ∧
      (if isDel then r.index = none ∧ r.removed = ids ∧ r.shm.segments = shm.segments.filter (·.2 ∉ ids)
        else r.index = some index ∧ r.removed = [] ∧ r.shm = shm) := by
  obtain ⟨rest, rfl⟩ := loop.ring.eq_cons
  obtain ⟨fresh, _⟩ := List.nodup_cons.mp loop.ring.nodup
  have walks : Recovery.walk isDel index rounds index ⟨shm, some index, none, [], []⟩ = _ :=
    Recovery.walk_leads loop.ring.leads fresh loop.ring.nodup loop.segments rounds
  have recovers := recover_of_walk walks
  have leaveLog := Recovery.foldl_leaveLog ⟨shm, some index, none, [], []⟩ isDel (index :: rest)
  obtain ⟨attached, index'⟩ := Recovery.foldl_attached ⟨shm, some index, none, [], []⟩ isDel (index :: rest)
  obtain ⟨kept, same, removed, segments⟩ := Recovery.foldl_removed ⟨shm, some index, none, [], []⟩ (index :: rest)
  cases isDel with
  | false => exact ⟨_, recovers, leaveLog, attached, index', kept, same⟩
  | true => exact ⟨_, recovers, leaveLog, attached, rfl, removed, segments⟩

theorem Shm.any_of_lookup {shm : Shm} (found : shm.lookup key = some shmId) :
    shm.segments.any (·.2 == shmId) = true :=
  List.any_eq_true.mpr ⟨_, mem_of_lookup found, beq_self_eq_true _⟩

theorem CRingLog.Links.segments_of_known {log : CRingLog} {shm : Shm} (links : log.Links cells)
    (known : ∀ key shmId, log.shm.lookup key = some shmId → shm.lookup key = some shmId) :
    ∀ shmId ∈ cells.map CellPtr.shmId, shm.segments.any (·.2 == shmId) = true := by
  intro shmId member
  obtain ⟨cell, inRing, rfl⟩ := List.mem_map.mp member
  obtain ⟨j, _, found⟩ := links.keyed cell inRing
  exact Shm.any_of_lookup (known _ _ found)

/-- The ring of the log, as the ids lead through it. -/
theorem CRingLog.Named.loop {log : CRingLog} (named : log.Named cells) (links : log.Links cells) :
    log.shm.Loop log.prstBCShmId (cells.map CellPtr.shmId) :=
  ⟨named.ring, links.segments_of_known fun _ _ found => found⟩

theorem CRingLog.flatMap_ids (log : CRingLog) (cells : List CellPtr) :
    (cells.map CellPtr.shmId).flatMap (fun shmId => (log.shm.cell shmId).aData) = log.contents cells := by
  rw [List.flatMap_map]
  rfl

/-- So does the loop of the next start. -/
theorem Shm.Loop.getPrstCBShmId {shm : Shm} (loop : shm.Loop index ids) (rounds : Nat) (enough : ids.length ≤ rounds) :
    shm.getPrstCBShmId (some index) rounds = .ok (some (ids.foldl Shm.remove shm)) := by
  obtain ⟨rest, rfl⟩ := loop.ring.eq_cons
  obtain ⟨fresh, _⟩ := List.nodup_cons.mp loop.ring.nodup
  rw [Shm.getPrstCBShmId, Shm.removeRing_leads loop.ring.leads fresh loop.ring.nodup loop.segments]
  rw [if_pos (by simpa using enough)]

end WSlyh.Log
