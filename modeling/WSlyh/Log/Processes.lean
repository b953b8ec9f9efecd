import WSlyh.Lib.Transition
import WSlyh.Log.Segments

/-! Two processes of different executables, each with its own index segment, over one system's shared memory. -/

namespace WSlyh.Log

open Libc Lib

/-- One round of the loop that removes a ring. The number is the one of the next round. -/
def Shm.walkRound (shm : Shm) (headCBShmId curCBShmId : Int) : Except Fault (Shm × Option Int) :=
  if shm.segments.any (·.2 == curCBShmId) then
    let nextCBShmId := (shm.cell curCBShmId).nextShmId
    .ok (shm.remove curCBShmId, if headCBShmId = nextCBShmId then none else some nextCBShmId)
  else .error .badAddress

theorem Shm.removeRing_succ (shm : Shm) (headCBShmId curCBShmId : Int) (rounds : Nat) :
    shm.removeRing headCBShmId (rounds + 1) curCBShmId = (shm.walkRound headCBShmId curCBShmId).bind fun round =>
      round.2.elim (.ok (some round.1)) fun nextCBShmId => round.1.removeRing headCBShmId rounds nextCBShmId := by
  rw [removeRing, walkRound]
  split
  · dsimp only [Except.bind]
    split <;> rfl
  · rfl

theorem Shm.of_walkRound {shm shm' : Shm} (done : shm.walkRound headCBShmId curCBShmId = .ok (shm', next)) :
    curCBShmId < shm.nextShmId ∧ shm' = shm.remove curCBShmId := by
  unfold walkRound at done
  split at done
  · rename_i there
    obtain ⟨entry, member, same⟩ := List.any_eq_true.mp there
    have early := (shm.fresh entry member).2
    rw [beq_iff_eq.mp same] at early
    exact ⟨early, (Prod.mk.inj (Except.ok.inj done)).1.symm⟩
  · cases done

/-- How far a process has come in the constructor of its log. -/
inductive StartUp
  | fresh
  | walking (headCBShmId curCBShmId : Int)
  | creating
  | chaining (head prev : CellPtr) (left : Nat)
  | running
  deriving DecidableEq

/-- A process: the number in the index segment of its executable, where there is one, the fields of
its log, and the segments that it has had as cells and those that it has marked for removal. -/
structure Process where
  index : Option Int
  startUp : StartUp
  buffCnt : Nat
  curBuf : CellPtr
  prstBuf : CellPtr
  lastLogFailTime : Nat
  oneBuffLen : Nat
  cells : List Int
  removed : List Int
  deriving DecidableEq

def Process.log (proc : Process) (shm : Shm) : CRingLog where
  shm := shm
  buffCnt := proc.buffCnt
  curBuf := proc.curBuf
  prstBuf := proc.prstBuf
  lastLogFailTime := proc.lastLogFailTime
  oneBuffLen := proc.oneBuffLen
  prstBCShmId := proc.index.getD 0

/-- What is left of a process after it has used its log. -/
def Process.used (proc : Process) (before after : CRingLog) : Process :=
  { proc with
    index := some after.prstBCShmId
    buffCnt := after.buffCnt
    curBuf := after.curBuf
    prstBuf := after.prstBuf
    lastLogFailTime := after.lastLogFailTime
    cells := proc.cells ++ (before.reaches ++ after.reaches) }

/-- The calls and sections of `GetPrstCBShmId`, of the constructor, of `TryAppendLog` and of `PersistLog`. -/
inductive ProcessStep
  | index
  | walk
  | create (allocation : Allocation)
  | chain (allocation : Allocation)
  | close
  | append (curSec : Nat) (logLine : Bytes) (allocation : Allocation)
  | check
  | clear

/-- A step that is not enabled, or with which the process exits, gives `none`. -/
def Process.act (proc : Process) (shm : Shm) : ProcessStep → Option (Except Fault (Shm × Process))
  | .index =>
    match proc.startUp, proc.index with
    -- A new segment is zeroed.
    | .fresh, none => some (.ok (shm, { proc with index := some 0, startUp := .creating }))
    | .fresh, some headCBShmId => some (.ok (shm, { proc with startUp := .walking headCBShmId headCBShmId }))
    | _, _ => none
  | .walk =>
    match proc.startUp with
    | .walking headCBShmId curCBShmId =>
      match shm.walkRound headCBShmId curCBShmId with
      | .ok (shm, next) => some (.ok (shm, { proc with
          startUp := next.elim .creating (.walking headCBShmId)
          removed := proc.removed ++ [curCBShmId] }))
      | .error fault => some (.error fault)
    | _ => none
  | .create allocation =>
    match proc.startUp with
    | .creating =>
      match shm.createCellBuffer SHMKEY proc.oneBuffLen allocation with
      | .ok (shm, some head) => some (.ok (shm, { proc with
          startUp := .chaining head head 2
          cells := proc.cells ++ [head.shmId] }))
      | .ok (_, none) => none
      | .error fault => some (.error fault)
    | _ => none
  | .chain allocation =>
    match proc.startUp with
    | .chaining head prev (left + 1) =>
      match shm.createCellBuffer (SHMKEY + 1) proc.oneBuffLen allocation with
      | .ok (shm, some current) => some (.ok (shm.link prev current, { proc with
          startUp := .chaining head current left
          cells := proc.cells ++ [current.shmId] }))
      | .ok (_, none) => none
      | .error fault => some (.error fault)
    | _ => none
  | .close =>
    match proc.startUp with
    | .chaining head prev 0 =>
      let shm := shm.link prev head
      some (.ok (shm, { proc with
        index := some (shm.deref head).shmId
        startUp := .running
        buffCnt := 3
        curBuf := head
        prstBuf := head
        lastLogFailTime := 0 }))
    | _ => none
  | .append curSec logLine allocation =>
    match proc.startUp with
    | .running =>
      match (proc.log shm).appendLocked curSec logLine allocation with
      | .ok (log, _) => some (.ok (log.shm, proc.used (proc.log shm) log))
      | .error fault => some (.error fault)
    | _ => none
  | .check =>
    match proc.startUp with
    | .running =>
      match (proc.log shm).checkLocked with
      | .ok (log, _) => some (.ok (log.shm, proc.used (proc.log shm) log))
      | .error fault => some (.error fault)
    | _ => none
  | .clear =>
    match proc.startUp with
    | .running =>
      match (proc.log shm).clearLocked with
      | .ok log => some (.ok (log.shm, proc.used (proc.log shm) log))
      | .error fault => some (.error fault)
    | _ => none

inductive Program
  | first | second
  deriving DecidableEq

def Program.other : Program → Program
  | .first => .second
  | .second => .first

structure Programs where
  shm : Shm
  proc : Program → Process

/-- A step of one of them; where it fails, that process is no longer there. -/
def Programs.act (s : Programs) (step : Program × ProcessStep) : Option (Except Fault Programs) :=
  match (s.proc step.1).act s.shm step.2 with
  | some (.ok (shm, proc)) => some (.ok ⟨shm, Function.update s.proc step.1 proc⟩)
  | some (.error fault) => some (.error fault)
  | none => none

/-- Both start; what earlier runs have left in the system is arbitrary. -/
def programSystem : System Programs (Program × ProcessStep) where
  init s := ∀ program, (s.proc program).startUp = .fresh ∧ (s.proc program).cells = [] ∧ (s.proc program).removed = []
  step s step s' := s.act step = some (.ok s')

/-- What one has had as a cell, the other has neither had as a cell, which is how it would have reset it, nor marked
for removal. -/
def Programs.Isolated (s : Programs) : Prop :=
  ∀ program, ∀ shmId ∈ (s.proc program).cells,
    shmId ∉ (s.proc program.other).cells ∧ shmId ∉ (s.proc program.other).removed

/-- No process comes to its first cell while the other one has a cell, and no walk comes to a cell of
the other one. -/
def Programs.Covered (s : Programs) : Program × ProcessStep → Prop
  | (program, .create _) => (s.proc program.other).cells = []
  | (program, .walk) => ∀ headCBShmId curCBShmId, (s.proc program).startUp = .walking headCBShmId curCBShmId →
      curCBShmId ∉ (s.proc program.other).cells
  | _ => True

namespace Process

/-- The cells that the process holds pointers to. -/
def held (proc : Process) : List Int :=
  match proc.startUp with
  | .chaining head prev _ => [head.shmId, prev.shmId]
  | .running => [proc.curBuf.shmId, proc.prstBuf.shmId]
  | _ => []

/-- What holds of a process whose cells nobody else has removed. -/
structure Sound (proc : Process) (shm : Shm) : Prop where
  head : proc.cells ≠ [] → ∃ shmId ∈ proc.cells, shm.lookup SHMKEY = some shmId
  closed : shm.Closed proc.cells
  held : ∀ shmId ∈ proc.held, shmId ∈ proc.cells
  idle : proc.held = [] → proc.cells = []
  gone : ∀ shmId ∈ proc.removed, shm.Gone shmId

/-- How a step changes the memory and the process. -/
inductive Effect (proc : Process) (shm : Shm) (proc' : Process) : ProcessStep → Shm → Prop
  | removes (walking : proc.startUp = .walking headCBShmId curCBShmId) (cells : proc'.cells = proc.cells)
      (removed : proc'.removed = proc.removed ++ [curCBShmId]) : Effect proc shm proc' .walk (shm.remove curCBShmId)
  | adds (other : step ≠ .walk) (grown : shm.Grown shm') (cells : proc.cells ⊆ proc'.cells)
      (origin : ∀ shmId ∈ proc'.cells, shmId ∈ proc.cells ∨ shm'.Live shmId) (removed : proc'.removed = proc.removed)
      (begun : proc.cells = [] → (proc'.cells = [] ∧ shm' = shm ∧ ∀ allocation, step ≠ .create allocation) ∨
        proc'.cells ≠ [] ∧ ∃ allocation, step = .create allocation) :
      Effect proc shm proc' step shm'

variable {shm shm' : Shm} {proc proc' : Process}

theorem Sound.gone_later (sound : proc.Sound shm) (later : shm.Later shm') : ∀ shmId ∈ proc.removed, shm'.Gone shmId :=
  fun shmId member => (sound.gone shmId member).later later

theorem Sound.head_grown (sound : proc.Sound shm) (grown : shm.Grown shm') (cells : proc.cells ⊆ proc'.cells)
    (some_ : proc.cells ≠ []) : ∃ shmId ∈ proc'.cells, shm'.lookup SHMKEY = some shmId := by
  obtain ⟨shmId, member, known⟩ := sound.head some_
  exact ⟨shmId, cells member, grown.known _ _ known⟩

theorem Sound.within (sound : proc.Sound shm) (running : proc.startUp = .running) :
    (proc.log shm).Within proc.cells := by
  have heldCells : proc.held = [proc.curBuf.shmId, proc.prstBuf.shmId] := by rw [Process.held, running]
  have inside := sound.held
  rw [heldCells] at inside
  exact ⟨inside _ List.mem_cons_self, inside _ (List.mem_cons_of_mem _ List.mem_cons_self), sound.closed⟩

/-- A section adds at most the cell at `m_pCurBuf` to those that the process has had. -/
theorem mem_used {log : CRingLog} (within : (proc.log shm).Within proc.cells)
    (spread : (proc.log shm).Spread proc.cells log) :
    shmId ∈ proc.cells ++ [log.curBuf.shmId] ↔ shmId ∈ (proc.used (proc.log shm) log).cells := by
  have cells : (proc.used (proc.log shm) log).cells = proc.cells ++ ((proc.log shm).reaches ++ log.reaches) := rfl
  have reached : log.curBuf.shmId ∈ log.reaches := CRingLog.mem_reaches.mpr (.inl rfl)
  rw [cells]
  constructor
  · intro member
    rcases List.mem_append.mp member with old | new
    · exact List.mem_append_left _ old
    · rw [List.mem_singleton.mp new]
      exact List.mem_append_right _ (List.mem_append_right _ reached)
  · intro member
    rcases List.mem_append.mp member with old | near
    · exact List.mem_append_left _ old
    · rcases List.mem_append.mp near with before | after
      · exact List.mem_append_left _ (within.reaches shmId before)
      · exact spread.within.reaches shmId after

/-- After a section of a running process. -/
theorem Sound.used {log : CRingLog} {step : ProcessStep} (sound : proc.Sound shm) (running : proc.startUp = .running)
    (other : step ≠ .walk) (spread : (proc.log shm).Spread proc.cells log) :
    (proc.used (proc.log shm) log).Sound log.shm ∧
      proc.Effect shm (proc.used (proc.log shm) log) step log.shm := by
  have within := sound.within running
  have some_ : proc.cells ≠ [] := List.ne_nil_of_mem within.curBuf
  have same : ∀ shmId, shmId ∈ proc.cells ++ [log.curBuf.shmId] ↔ shmId ∈ (proc.used (proc.log shm) log).cells :=
    fun shmId => mem_used within spread
  have kept : proc.cells ⊆ (proc.used (proc.log shm) log).cells := List.subset_append_left _ _
  have heldCells : (proc.used (proc.log shm) log).held = [log.curBuf.shmId, log.prstBuf.shmId] := by
    rw [Process.held, Process.used, running]
  refine ⟨⟨?_, ?_, ?_, ?_, ?_⟩, .adds other spread.grown kept ?_ rfl fun none_ => absurd none_ some_⟩
  · intro _
    exact sound.head_grown spread.grown kept some_
  · exact spread.within.closed.congr same
  · intro shmId member
    rw [heldCells] at member
    rcases List.mem_pair.mp member with rfl | rfl
    · exact (same _).mp spread.within.curBuf
    · exact (same _).mp spread.within.prstBuf
  · rw [heldCells]
    intro none_
    cases none_
  · exact sound.gone_later spread.grown.toLater
  · intro shmId member
    rcases List.mem_append.mp ((same shmId).mpr member) with old | new
    · exact .inl old
    · rw [List.mem_singleton.mp new]
      exact spread.origin

theorem sound_of_idle (noCells : proc.cells = []) (noPointers : proc.held = [])
    (gone : ∀ shmId ∈ proc.removed, shm.Gone shmId) : proc.Sound shm := by
  refine ⟨fun some_ => absurd noCells some_, ?_, ?_, fun _ => noCells, gone⟩
  · intro shmId member
    rw [noCells] at member
    cases member
  · intro shmId member
    rw [noPointers] at member
    cases member

/-- After a cell is created in the constructor. -/
theorem Sound.created {step : ProcessStep} {shm₁ : Shm} {bc : CellPtr} (sound : proc.Sound shm)
    (done : shm.createCellBuffer shmKey dataLen allocation = .ok (shm₁, some bc)) (grown : shm₁.Grown shm')
    (closed : shm'.Closed (proc.cells ++ [bc.shmId])) (cells : proc'.cells = proc.cells ++ [bc.shmId])
    (held : ∀ shmId ∈ proc'.held, shmId ∈ proc'.cells) (holds : proc'.held ≠ [])
    (removed : proc'.removed = proc.removed)
    (other : step ≠ .walk) (first : proc.cells = [] → shmKey = SHMKEY ∧ ∃ allocation, step = .create allocation) :
    proc'.Sound shm' ∧ proc.Effect shm proc' step shm' := by
  obtain ⟨spec, grown₁, live⟩ := Shm.of_createCellBuffer done
  have all := grown₁.trans grown
  have kept : proc.cells ⊆ proc'.cells := by
    rw [cells]
    exact List.subset_append_left _ _
  have known : shm'.lookup shmKey = some bc.shmId := grown.known _ _ spec.lookup
  have last : bc.shmId ∈ proc'.cells := by
    rw [cells]
    exact List.mem_append_right _ (List.mem_singleton_self _)
  have some_ : proc'.cells ≠ [] := List.ne_nil_of_mem last
  refine ⟨⟨?_, cells ▸ closed, held, fun none_ => absurd none_ holds, ?_⟩,
    .adds other all kept ?_ removed fun none_ => .inr ⟨some_, (first none_).2⟩⟩
  · intro _
    by_cases none_ : proc.cells = []
    · exact ⟨bc.shmId, last, (first none_).1 ▸ known⟩
    · exact sound.head_grown all kept none_
  · rw [removed]
    exact sound.gone_later all.toLater
  · intro shmId member
    rw [cells] at member
    rcases List.mem_append.mp member with old | new
    · exact .inl old
    · rw [List.mem_singleton.mp new]
      exact .inr ⟨shmKey, mem_of_lookup known⟩

theorem Sound.index (sound : proc.Sound shm) (taken : proc.act shm .index = some (.ok (shm', proc'))) :
    proc'.Sound shm' ∧ proc.Effect shm proc' .index shm' := by
  dsimp only [Process.act] at taken
  split at taken
  · rename_i fresh _
    cases taken
    have none_ : proc.cells = [] := sound.idle (by rw [Process.held, fresh])
    exact ⟨sound_of_idle none_ rfl sound.gone,
      .adds nofun (.refl shm) (List.Subset.refl _) (fun _ member => .inl member) rfl fun _ => .inl ⟨none_, rfl, nofun⟩⟩
  · rename_i fresh _
    cases taken
    have none_ : proc.cells = [] := sound.idle (by rw [Process.held, fresh])
    exact ⟨sound_of_idle none_ rfl sound.gone,
      .adds nofun (.refl shm) (List.Subset.refl _) (fun _ member => .inl member) rfl fun _ => .inl ⟨none_, rfl, nofun⟩⟩
  · cases taken

theorem Sound.walk (sound : proc.Sound shm) (taken : proc.act shm .walk = some (.ok (shm', proc'))) :
    proc'.Sound shm' ∧ proc.Effect shm proc' .walk shm' := by
  dsimp only [Process.act] at taken
  split at taken
  · rename_i headCBShmId curCBShmId walking
    have none_ : proc.cells = [] := sound.idle (by rw [Process.held, walking])
    split at taken
    · rename_i next round
      obtain ⟨early, removed⟩ := Shm.of_walkRound round
      cases taken
      rw [removed]
      refine ⟨sound_of_idle none_ ?_ ?_, .removes walking rfl rfl⟩
      · cases next with
        | none => rfl
        | some nextCBShmId => rfl
      · intro shmId member
        rcases List.mem_append.mp member with old | new
        · exact sound.gone_later (shm.later_remove curCBShmId) shmId old
        · rw [List.mem_singleton.mp new]
          exact Shm.gone_remove early
    · cases taken
  · cases taken

theorem Sound.create (sound : proc.Sound shm) (taken : proc.act shm (.create allocation) = some (.ok (shm', proc'))) :
    proc'.Sound shm' ∧ proc.Effect shm proc' (.create allocation) shm' := by
  dsimp only [Process.act] at taken
  split at taken
  · rename_i creating
    have none_ : proc.cells = [] := sound.idle (by rw [Process.held, creating])
    split at taken
    · rename_i shm₁ head created
      cases taken
      have closed := sound.closed.created (Shm.of_createCellBuffer created).1
      have last : head.shmId ∈ proc.cells ++ [head.shmId] := List.mem_append_right _ (List.mem_singleton_self _)
      refine sound.created created (.refl _) closed rfl ?_ (by simp [Process.held]) rfl nofun fun _ =>
        ⟨rfl, allocation, rfl⟩
      intro shmId member
      rcases List.mem_pair.mp member with rfl | rfl
      · exact last
      · exact last
    · cases taken
    · cases taken
  · cases taken

theorem Sound.chain (sound : proc.Sound shm) (taken : proc.act shm (.chain allocation) = some (.ok (shm', proc'))) :
    proc'.Sound shm' ∧ proc.Effect shm proc' (.chain allocation) shm' := by
  dsimp only [Process.act] at taken
  split at taken
  · rename_i head prev left chaining
    have pointers : proc.held = [head.shmId, prev.shmId] := by rw [Process.held, chaining]
    have inside : head.shmId ∈ proc.cells := sound.held _ (by simp [pointers])
    split at taken
    · rename_i shm₁ current created
      cases taken
      have last : current.shmId ∈ proc.cells ++ [current.shmId] := List.mem_append_right _ (List.mem_singleton_self _)
      have closed := (sound.closed.created (Shm.of_createCellBuffer created).1).link prev last
      refine sound.created created (Shm.grown_link ..) closed rfl ?_ (by simp [Process.held]) rfl nofun fun none_ =>
        absurd none_ (List.ne_nil_of_mem inside)
      intro shmId member
      rcases List.mem_pair.mp member with rfl | rfl
      · exact List.mem_append_left _ inside
      · exact last
    · cases taken
    · cases taken
  · cases taken

theorem Sound.close (sound : proc.Sound shm) (taken : proc.act shm .close = some (.ok (shm', proc'))) :
    proc'.Sound shm' ∧ proc.Effect shm proc' .close shm' := by
  dsimp only [Process.act] at taken
  split at taken
  · rename_i head prev chaining
    cases taken
    have pointers : proc.held = [head.shmId, prev.shmId] := by rw [Process.held, chaining]
    have inside : head.shmId ∈ proc.cells := sound.held _ (by simp [pointers])
    have some_ : proc.cells ≠ [] := List.ne_nil_of_mem inside
    have grown := shm.grown_link prev head
    refine ⟨⟨?_, sound.closed.link prev inside, ?_, ?_, sound.gone_later grown.toLater⟩,
      .adds nofun grown (List.Subset.refl _) (fun _ member => .inl member) rfl fun none_ => absurd none_ some_⟩
    · intro _
      exact sound.head_grown grown (List.Subset.refl _) some_
    · intro shmId member
      rcases List.mem_pair.mp member with rfl | rfl
      · exact inside
      · exact inside
    · intro none_
      cases none_
  · cases taken

/-- What one step keeps, and what it changes. -/
theorem Sound.act {step : ProcessStep} (sound : proc.Sound shm)
    (taken : proc.act shm step = some (.ok (shm', proc'))) : proc'.Sound shm' ∧ proc.Effect shm proc' step shm' := by
  cases step with
  | index => exact sound.index taken
  | walk => exact sound.walk taken
  | create allocation => exact sound.create taken
  | chain allocation => exact sound.chain taken
  | close => exact sound.close taken
  | append curSec logLine allocation =>
    dsimp only [Process.act] at taken
    split at taken
    · rename_i running
      split at taken
      · rename_i log calls appended
        cases taken
        exact sound.used running nofun ((sound.within running).appendLocked appended)
      · cases taken
    · cases taken
  | check =>
    dsimp only [Process.act] at taken
    split at taken
    · rename_i running
      split at taken
      · rename_i log goesOn checked
        cases taken
        exact sound.used running nofun ((sound.within running).checkLocked checked)
      · cases taken
    · cases taken
  | clear =>
    dsimp only [Process.act] at taken
    split at taken
    · rename_i running
      split at taken
      · rename_i log cleared
        cases taken
        exact sound.used running nofun ((sound.within running).clearLocked cleared)
      · cases taken
    · cases taken

/-- What another process does leaves a process sound that has no cell yet. -/
theorem Sound.of_later (sound : proc.Sound shm) (none_ : proc.cells = []) (later : shm.Later shm') :
    proc.Sound shm' := by
  refine sound_of_idle none_ ?_ (sound.gone_later later)
  apply List.eq_nil_iff_forall_not_mem.mpr
  intro shmId member
  have inside := sound.held shmId member
  rw [none_] at inside
  cases inside

theorem Sound.of_remove (sound : proc.Sound shm) (spared : curCBShmId ∉ proc.cells) :
    proc.Sound (shm.remove curCBShmId) := by
  refine ⟨?_, sound.closed, sound.held, sound.idle, sound.gone_later (shm.later_remove curCBShmId)⟩
  intro some_
  obtain ⟨shmId, member, known⟩ := sound.head some_
  have differ : shmId ≠ curCBShmId := by
    rintro rfl
    exact spared member
  exact ⟨shmId, member, Shm.lookup_remove known differ⟩

/-- What a process has had it keeps having had. -/
theorem act_history {step : ProcessStep} (taken : proc.act shm step = some (.ok (shm', proc'))) :
    proc.cells ⊆ proc'.cells ∧ proc.removed ⊆ proc'.removed := by
  cases step
  all_goals
    dsimp only [act] at taken
    repeat split at taken
    all_goals cases taken
    all_goals exact ⟨by simp [used], by simp [used]⟩

/-- The steps of a process on its own. -/
def alone (state : Shm × Process) (step : ProcessStep) : Option (Shm × Process) := reached (state.2.act state.1 step)

theorem alone_walks (proc : Process) (walking : proc.startUp = .walking headCBShmId curCBShmId)
    (done : shm.removeRing headCBShmId rounds curCBShmId = .ok (some shm')) :
    ∃ walks proc', (List.replicate walks .walk).foldlM alone (shm, proc) = some (shm', proc') ∧
      proc'.startUp = .creating ∧ proc'.oneBuffLen = proc.oneBuffLen := by
  induction rounds generalizing shm curCBShmId proc with
  | zero => cases done
  | succ rounds ih =>
    rw [Shm.removeRing_succ] at done
    obtain ⟨⟨shm₁, next⟩, round, done⟩ := bind_eq_ok.mp done
    have walk : alone (shm, proc) .walk = some (shm₁, { proc with
        startUp := next.elim .creating (.walking headCBShmId)
        removed := proc.removed ++ [curCBShmId] }) := by
      simp only [alone, act, walking, round, reached]
    cases next with
    | none =>
      cases done
      refine ⟨1, { proc with startUp := .creating, removed := proc.removed ++ [curCBShmId] }, ?_, rfl, rfl⟩
      rw [List.replicate_one, List.foldlM_cons, walk]
      rfl
    | some nextCBShmId =>
      obtain ⟨walks, proc', rest, ready, len⟩ := ih { proc with
        startUp := .walking headCBShmId nextCBShmId
        removed := proc.removed ++ [curCBShmId] } rfl done
      refine ⟨walks + 1, proc', ?_, ready, len⟩
      rw [List.replicate_succ, List.foldlM_cons, walk]
      exact rest

theorem alone_construct {log : CRingLog} (proc : Process) (creating : proc.startUp = .creating)
    (done : CRingLog.construct shm proc.oneBuffLen first second third = .ok (some log)) :
    ∃ proc', [.create first, .chain second, .chain third, .close].foldlM alone (shm, proc) = some (log.shm, proc') ∧
      proc'.startUp = .running ∧ proc'.log log.shm = log := by
  obtain ⟨⟨shm₁, head⟩, createdHead, done⟩ := bind_eq_ok.mp done
  cases head with
  | none => cases done
  | some head =>
    obtain ⟨chained, chaining, done⟩ := bind_eq_ok.mp done
    cases chained with
    | none => cases done
    | some chained =>
      obtain ⟨⟨shm₂, next⟩, createdNext, chaining⟩ := bind_eq_ok.mp chaining
      cases next with
      | none => cases chaining
      | some next =>
        obtain ⟨⟨shm₃, last⟩, createdLast, chaining⟩ := bind_eq_ok.mp chaining
        cases last with
        | none => cases chaining
        | some last =>
          cases chaining
          cases done
          simp only [List.foldlM_cons, alone, act, creating, createdHead, createdNext, createdLast, reached,
            Option.bind_eq_bind, Option.bind_some, List.foldlM_nil]
          exact ⟨_, rfl, rfl, rfl⟩

theorem alone_append {front back : List ProcessStep} {state state' : Shm × Process}
    (first : front.foldlM alone state = some state') :
    (front ++ back).foldlM alone state = back.foldlM alone state' := by
  rw [List.foldlM_append, first]
  rfl

/-- With nobody else at work, the steps of a start are the constructor. -/
theorem alone_create {log : CRingLog} (fresh : proc.startUp = .fresh)
    (done : CRingLog.create shm proc.index rounds proc.oneBuffLen first second third = .ok (some log)) :
    ∃ (steps : List ProcessStep) (proc' : Process), steps.foldlM alone (shm, proc) = some (log.shm, proc') ∧
      proc'.startUp = .running ∧ proc'.log log.shm = log := by
  obtain ⟨cleared, clearing, done⟩ := bind_eq_ok.mp done
  cases cleared with
  | none => cases done
  | some shm₁ =>
    cases index : proc.index with
    | none =>
      rw [index] at clearing
      cases clearing
      have begin : [.index].foldlM alone (shm, proc) =
          some (shm, { proc with index := some 0, startUp := .creating }) := by
        simp only [List.foldlM_cons, alone, act, fresh, index, reached, Option.bind_eq_bind, Option.bind_some,
          List.foldlM_nil]
        rfl
      obtain ⟨proc', construct, running, same⟩ :=
        alone_construct { proc with index := some 0, startUp := .creating } rfl done
      exact ⟨_, proc', (alone_append begin).trans construct, running, same⟩
    | some headCBShmId =>
      rw [index] at clearing
      have begin : [.index].foldlM alone (shm, proc) =
          some (shm, { proc with startUp := .walking headCBShmId headCBShmId }) := by
        simp only [List.foldlM_cons, alone, act, fresh, index, reached, Option.bind_eq_bind, Option.bind_some,
          List.foldlM_nil]
        rfl
      obtain ⟨walks, ready, walked, creating, len⟩ :=
        alone_walks { proc with startUp := .walking headCBShmId headCBShmId } rfl clearing
      rw [← len] at done
      obtain ⟨proc', construct, running, same⟩ := alone_construct ready creating done
      exact ⟨_, proc', (alone_append begin).trans ((alone_append walked).trans construct), running, same⟩

end Process

namespace Programs

variable {s s' : Programs} {program : Program} {step : ProcessStep}

theorem other_other (program : Program) : program.other.other = program := by
  cases program <;> rfl

theorem eq_or_other (program one : Program) : one = program ∨ one = program.other := by
  cases program <;> cases one <;> simp [Program.other]

theorem other_ne (program : Program) : program.other ≠ program := by
  cases program <;> simp [Program.other]

theorem of_act (taken : s.act (program, step) = some (.ok s')) :
    (s.proc program).act s.shm step = some (.ok (s'.shm, s'.proc program)) ∧
      s'.proc program.other = s.proc program.other := by
  unfold act at taken
  split at taken
  · rename_i acts
    cases taken
    exact ⟨by simpa using acts, Function.update_of_ne (other_ne program) _ _⟩
  · cases taken
  · cases taken

theorem isolated_of (program : Program)
    (own : ∀ shmId ∈ (s.proc program).cells,
      shmId ∉ (s.proc program.other).cells ∧ shmId ∉ (s.proc program.other).removed)
    (removed : ∀ shmId ∈ (s.proc program.other).cells, shmId ∉ (s.proc program).removed) : s.Isolated := by
  intro one shmId member
  rcases eq_or_other program one with rfl | rfl
  · exact own shmId member
  · rw [other_other]
    exact ⟨fun shared => (own shmId shared).1 member, removed shmId member⟩

theorem Isolated.removed_other (isolated : s.Isolated) (program : Program) :
    ∀ shmId ∈ (s.proc program.other).cells, shmId ∉ (s.proc program).removed := by
  intro shmId member
  have apart := (isolated program.other shmId member).2
  rwa [other_other] at apart

/-- Isolated processes, each of them sound. -/
structure Keeps (s : Programs) : Prop where
  sound : ∀ program, (s.proc program).Sound s.shm
  isolated : s.Isolated

/-- Their first cells would be one. -/
theorem Keeps.alone (keeps : s.Keeps) (some_ : (s.proc program).cells ≠ []) : (s.proc program.other).cells = [] := by
  by_contra others
  obtain ⟨shmId, member, known⟩ := (keeps.sound program).head some_
  obtain ⟨shmId', member', known'⟩ := (keeps.sound program.other).head others
  have same := Option.some.inj (known.symm.trans known')
  exact (keeps.isolated program shmId member).1 (same ▸ member')

theorem keeps_init (start : programSystem.init s) : s.Keeps := by
  have idle : ∀ program, (s.proc program).Sound s.shm := by
    intro program
    obtain ⟨fresh, noCells, noRemoved⟩ := start program
    refine Process.sound_of_idle noCells (by rw [Process.held, fresh]) ?_
    rw [noRemoved]
    intro shmId member
    cases member
  refine ⟨idle, ?_⟩
  intro program shmId member
  rw [(start program).2.1] at member
  cases member

theorem keeps_of (program : Program) (own : (s.proc program).Sound s.shm)
    (others : (s.proc program.other).Sound s.shm) (isolated : s.Isolated) : s.Keeps := by
  refine ⟨fun one => ?_, isolated⟩
  rcases eq_or_other program one with rfl | rfl
  · exact own
  · exact others

/-- A covered step that is no round of a walk changes nothing that counts, unless the other process has no cell. -/
theorem Keeps.quiet {shm' : Shm} {proc' : Process} (keeps : s.Keeps) (covered : s.Covered (program, step))
    (begun : (s.proc program).cells = [] →
      (proc'.cells = [] ∧ shm' = s.shm ∧ ∀ allocation, step ≠ .create allocation) ∨
        proc'.cells ≠ [] ∧ ∃ allocation, step = .create allocation) :
    proc'.cells = [] ∧ shm' = s.shm ∨ (s.proc program.other).cells = [] := by
  by_cases none_ : (s.proc program).cells = []
  · rcases begun none_ with ⟨noCells, same, _⟩ | ⟨_, allocation, rfl⟩
    · exact .inl ⟨noCells, same⟩
    · exact .inr covered
  · exact .inr (keeps.alone none_)

theorem Keeps.act (keeps : s.Keeps) (covered : s.Covered (program, step))
    (taken : s.act (program, step) = some (.ok s')) :
    s'.Keeps := by
  obtain ⟨acts, frame⟩ := of_act taken
  obtain ⟨sound, effect⟩ := (keeps.sound program).act acts
  have apart := keeps.isolated program
  have removed_other := keeps.isolated.removed_other program
  have others := keeps.sound program.other
  suffices after : (s.proc program.other).Sound s'.shm ∧ s'.Isolated from
    keeps_of program sound (frame ▸ after.1) after.2
  obtain ⟨shm', isShm⟩ : ∃ shm', shm' = s'.shm := ⟨_, rfl⟩
  rw [← isShm] at effect ⊢
  cases effect with
  | @removes headCBShmId curCBShmId walking cells removed =>
    have spared : curCBShmId ∉ (s.proc program.other).cells := covered headCBShmId curCBShmId walking
    refine ⟨others.of_remove spared, isolated_of program ?_ ?_⟩
    · rw [cells, frame]
      exact apart
    · rw [frame, removed]
      intro shmId member marked
      rcases List.mem_append.mp marked with old | new
      · exact removed_other shmId member old
      · rw [List.mem_singleton.mp new] at member
        exact spared member
  | adds other grown cells origin removed begun =>
    have unmarked : ∀ shmId ∈ (s'.proc program).cells, shmId ∉ (s.proc program.other).removed := by
      intro shmId member marked
      rcases origin shmId member with old | live
      · exact (apart shmId old).2 marked
      · exact (others.gone_later grown.toLater shmId marked).dead live
    rcases keeps.quiet covered begun with ⟨noCells, same⟩ | noOthers
    · refine ⟨same ▸ others, isolated_of program ?_ ?_⟩
      · rw [noCells]
        intro shmId member
        cases member
      · rw [frame, removed]
        exact removed_other
    · refine ⟨others.of_later noOthers grown.toLater, isolated_of program ?_ ?_⟩
      · rw [frame, noOthers]
        intro shmId member
        exact ⟨List.not_mem_nil, unmarked shmId member⟩
      · rw [frame, noOthers]
        intro shmId member
        cases member

theorem keeps_of_reachable (reachable : programSystem.Reachable Covered s) : s.Keeps := by
  refine reachable.invariant Keeps (fun _ start => keeps_init start) ?_
  rintro s ⟨program, step⟩ s' keeps covered taken
  exact keeps.act covered taken

/-- After a step that is not covered, they share a cell or one has marked a cell of the other. -/
theorem Keeps.covered (keeps : s.Keeps) (taken : s.act (program, step) = some (.ok s')) (isolated : s'.Isolated) :
    s.Covered (program, step) := by
  obtain ⟨acts, frame⟩ := of_act taken
  obtain ⟨sound, effect⟩ := (keeps.sound program).act acts
  obtain ⟨shm', isShm⟩ : ∃ shm', shm' = s'.shm := ⟨_, rfl⟩
  rw [← isShm] at effect sound
  cases effect with
  | @removes headCBShmId curCBShmId walking cells removed =>
    intro head cur walks member
    rw [walking] at walks
    cases walks
    rw [← frame] at member
    apply isolated.removed_other program curCBShmId member
    rw [removed]
    exact List.mem_append_right _ (List.mem_singleton_self _)
  | adds other grown cells origin removed begun =>
    cases step with
    | create allocation =>
      by_contra others
      have some_ : (s'.proc program).cells ≠ [] := by
        by_cases none_ : (s.proc program).cells = []
        · rcases begun none_ with ⟨_, _, never⟩ | ⟨some_, _⟩
          · exact absurd rfl (never allocation)
          · exact some_
        · exact fun noCells => none_ (List.subset_nil.mp (noCells ▸ cells))
      obtain ⟨shmId, member, known⟩ := sound.head some_
      obtain ⟨shmId', member', known'⟩ := (keeps.sound program.other).head others
      have same := Option.some.inj (known.symm.trans (grown.known _ _ known'))
      rw [← frame, ← same] at member'
      exact (isolated program shmId member).1 member'
    | walk => exact absurd rfl other
    | index | chain | close | append | check | clear => trivial

theorem Isolated.before (isolated : s'.Isolated) (taken : s.act (program, step) = some (.ok s')) : s.Isolated := by
  obtain ⟨acts, frame⟩ := of_act taken
  obtain ⟨cells, removed⟩ := Process.act_history acts
  apply isolated_of program
  · intro shmId member
    have apart := isolated program shmId (cells member)
    rwa [frame] at apart
  · intro shmId member marked
    rw [← frame] at member
    exact isolated.removed_other program shmId member (removed marked)

/-- In every run, the two programs share no cell, and neither marks a cell of the other, as long as no process
comes to its first cell while the other one has a cell, and no walk comes to a cell of the other one; and
after a step with which that happens, they do. -/
theorem isolated_iff (reachable : programSystem.Reachable (fun _ _ => True) s) :
    s.Isolated ↔ programSystem.Reachable Covered s := by
  refine ⟨fun isolated => ?_, fun covered => (keeps_of_reachable covered).isolated⟩
  induction reachable with
  | init start => exact .init start
  | @step s a s' before _ taken ih =>
    obtain ⟨program, step⟩ := a
    have earlier := ih (isolated.before taken)
    exact .step earlier ((keeps_of_reachable earlier).covered taken isolated) taken

def covered? (s : Programs) : Program × ProcessStep → Bool
  | (program, .create _) => (s.proc program.other).cells.isEmpty
  | (program, .walk) =>
    match (s.proc program).startUp with
    | .walking _ curCBShmId => !(s.proc program.other).cells.contains curCBShmId
    | _ => true
  | _ => true

theorem covered?_sound {a : Program × ProcessStep} (may : s.covered? a = true) : s.Covered a := by
  obtain ⟨program, step⟩ := a
  cases step with
  | create allocation => exact List.isEmpty_iff.mp may
  | walk =>
    intro headCBShmId curCBShmId walking
    simpa [covered?, walking] using may
  | index | chain | close | append | check | clear => trivial

/-- Two programs that nobody has run before. -/
def newPrograms : Programs where
  shm := .empty
  proc _ := ⟨none, .fresh, 0, ⟨0, 0⟩, ⟨0, 0⟩, 0, 16, [], []⟩

theorem newPrograms_init : programSystem.init newPrograms := fun _ => ⟨rfl, rfl, rfl⟩

def startSteps (program : Program) : List (Program × ProcessStep) :=
  [.index, .create .succeeds, .chain .succeeds, .chain .succeeds, .close].map (program, ·)

/-- As long as the second does not come to its first cell, the first has its cells for itself. -/
theorem oneStarted_isolated : ∃ s : Programs, (s.proc .first).cells = [0, 1, 1] ∧
    (s.proc .second).startUp = .creating ∧ s.Isolated := by
  have done : ((System.Reachable.follow act covered? newPrograms
    (startSteps .first ++ [(.second, .index)])).any fun s =>
      (s.proc .first).cells == [0, 1, 1] && (s.proc .second).startUp == .creating) = true := by
    decide +kernel
  obtain ⟨s, followed, state⟩ := (Option.any_eq_true ..).mp done
  obtain ⟨cells, creating⟩ := Bool.and_eq_true_iff.mp state
  have covered : programSystem.Reachable Covered s :=
    System.Reachable.followed (.init newPrograms_init) (fun _ _ _ => covered?_sound) (fun _ _ _ => id) followed
  exact ⟨s, eq_of_beq cells, eq_of_beq creating, (isolated_iff (covered.mono fun _ _ _ => trivial)).mpr covered⟩

/-- The second to start has the cells of the first. -/
theorem bothStarted_not_isolated : ∃ s : Programs, programSystem.Reachable (fun _ _ => True) s ∧
    (s.proc .first).cells = [0, 1, 1] ∧ (s.proc .second).cells = [0, 1, 1] ∧ ¬ s.Isolated := by
  have done : ((System.Reachable.follow act (fun _ _ => true) newPrograms
      (startSteps .first ++ startSteps .second)).any fun s =>
        (s.proc .first).cells == [0, 1, 1] && (s.proc .second).cells == [0, 1, 1]) = true := by
    decide +kernel
  obtain ⟨s, followed, cells⟩ := (Option.any_eq_true ..).mp done
  obtain ⟨first, second⟩ := Bool.and_eq_true_iff.mp cells
  have first := eq_of_beq first
  have second : (s.proc Program.first.other).cells = [0, 1, 1] := eq_of_beq second
  refine ⟨s, System.Reachable.followed (.init newPrograms_init) (fun _ _ _ _ => trivial) (fun _ _ _ => id) followed,
    first, second, fun isolated => ?_⟩
  apply (isolated .first 0 (by simp [first])).1
  simp [second]

end Programs

end WSlyh.Log
