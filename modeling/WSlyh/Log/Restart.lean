import WSlyh.Log.Capacity
import WSlyh.Log.Recovery
import WSlyh.Log.Segments

/-! One program, started again and again. Each start removes the ring that the last process has left,
each process that dies leaves one, and no segment is forgotten. -/

namespace WSlyh.Log

open Libc Lib

/-- A process runs, or none does; `index` is what the index segment holds, once there is one. -/
inductive Life
  | down (shm : Shm) (index : Option Int)
  | up (s : LogState)

/-- `boot` is a start that runs through, with memory for all its cells; `die` comes while no thread
is inside a locked section. -/
inductive LifeStep
  | boot (rounds oneBuffLen : Nat)
  | log (step : LogStep)
  | die
  | flush (isDel : Bool) (rounds : Nat)

inductive Life.Next : Life → LifeStep → Life → Prop
  | boot (made : CRingLog.create shm index rounds oneBuffLen .succeeds .succeeds .succeeds = .ok (some log)) :
    Next (.down shm index) (.boot rounds oneBuffLen) (.up (.start log))
  | log (taken : s.act step = some (.ok s')) : Next (.up s) (.log step) (.up s')
  | die (s : LogState) : Next (.up s) .die (.down s.log.shm (some s.log.prstBCShmId))
  | flush (flushed : shm.recover index isDel rounds = .ok (some r)) :
    Next (.down shm index) (.flush isDel rounds) (.down r.shm r.index)

def lifeSystem : System Life LifeStep where
  init life := life = .down .empty none
  step := Life.Next

/-- All the segments are those of the ring. -/
def Shm.Owned (shm : Shm) (ids : List Int) : Prop := (shm.segments.map Prod.snd).Perm ids

/-- Between two processes there is nothing, or one ring that the index leads to. -/
def Shm.Left (shm : Shm) : Option Int → Prop
  | none => shm.Owned []
  | some index => ∃ ids, shm.Loop index ids ∧ shm.Owned ids

/-- While a process runs, the ring is all there is. -/
def LogState.Owns (s : LogState) : Prop :=
  ∃ cells, Circular (fun cell => (s.log.cell cell).next) s.log.prstBuf cells ∧ cells.length + 1 = s.log.buffCnt ∧
    s.log.shm.Owned (cells.map CellPtr.shmId)

namespace Shm

variable {shm shm' : Shm}

theorem shmget_segments (shm : Shm) (key : Int) :
    (shm.shmget key).1.segments.length ≤ shm.segments.length + 1 := by
  unfold shmget
  cases shm.lookup key with
  | some shmId => exact Nat.le_succ _
  | none => simp

theorem createCellBuffer_segments {made : Option CellPtr}
    (done : shm.createCellBuffer shmKey dataLen allocation = .ok (shm', made)) :
    shm'.segments.length ≤ shm.segments.length + 1 := by
  unfold createCellBuffer at done
  cases allocation with
  | succeeds =>
    cases done
    exact shm.shmget_segments shmKey
  | shmgetFails =>
    cases done
    exact Nat.le_succ _
  | shmatFails => cases done

/-- The start removes all that is left. -/
theorem foldl_remove_segments (shm : Shm) (ids : List Int) :
    (ids.foldl remove shm).segments = shm.segments.filter (·.2 ∉ ids) := by
  induction ids generalizing shm with
  | nil => simp
  | cons id ids ih =>
    rw [List.foldl_cons, ih, remove, List.filter_filter]
    apply List.filter_congr
    intro entry _
    by_cases here : entry.2 = id
    · simp [here]
    · simp [here, bne]

theorem Owned.filter_nil (owned : shm.Owned ids) : shm.segments.filter (·.2 ∉ ids) = [] := by
  rw [List.filter_eq_nil_iff]
  intro entry member
  have inside := owned.mem_iff.mp (List.mem_map_of_mem member)
  simp [inside]

theorem createCellBuffer_known {made : Option CellPtr} (found : shm.lookup shmKey = some shmId)
    (done : shm.createCellBuffer shmKey dataLen allocation = .ok (shm', made)) : shm'.segments = shm.segments := by
  unfold createCellBuffer at done
  cases allocation with
  | succeeds =>
    simp only [shmget, found] at done
    cases done
    rfl
  | shmgetFails =>
    cases done
    rfl
  | shmatFails => cases done

end Shm

namespace CRingLog

variable {log log' : CRingLog} {cells : List CellPtr} {curSec : Nat} {logLine : Bytes}

/-- Each cell has a segment, so that there are no others if there are no more of them. -/
theorem Links.owned (links : log.Links cells) (few : log.shm.segments.length ≤ cells.length) :
    log.shm.Owned (cells.map CellPtr.shmId) := by
  have inside : cells.map CellPtr.shmId ⊆ log.shm.segments.map Prod.snd := by
    intro shmId member
    obtain ⟨cell, inRing, rfl⟩ := List.mem_map.mp member
    obtain ⟨j, _, found⟩ := links.keyed cell inRing
    exact List.mem_map_of_mem (mem_of_lookup found)
  refine ((List.subperm_of_subset links.segments inside).perm_of_length_le ?_).symm
  rw [List.length_map, List.length_map]
  exact few

theorem moveOn_segments (done : log.moveOn curSec allocation = .ok log') :
    log'.shm.segments.length + log.buffCnt ≤ log.shm.segments.length + log'.buffCnt := by
  unfold moveOn at done
  split at done
  · cases done
  · split at done
    · split at done
      · cases done
        exact le_rfl
      · obtain ⟨⟨shm, made⟩, created, rest⟩ := bind_eq_ok.mp done
        have more := Shm.createCellBuffer_segments created
        cases made with
        | none => cases rest
        | some newBuffer =>
          cases rest
          change shm.segments.length + log.buffCnt ≤ _ + (log.buffCnt + 1)
          omega
    · cases done
      exact le_rfl

theorem appendLocked_segments (done : log.appendLocked curSec logLine allocation = .ok (log', flag)) :
    log'.shm.segments.length + log.buffCnt ≤ log.shm.segments.length + log'.buffCnt := by
  unfold appendLocked at done
  split at done
  · cases done
    exact le_rfl
  · split at done
    · obtain ⟨moved, moves, rest⟩ := bind_eq_ok.mp done
      have more := moveOn_segments moves
      split at rest <;> cases rest <;> exact more
    · cases done
      exact le_rfl

theorem checkLocked_segments (done : log.checkLocked = .ok (log', flag)) : log'.shm.segments = log.shm.segments := by
  unfold checkLocked at done
  split at done
  · cases done
    rfl
  · split at done
    · split at done
      · cases done
      · dsimp only at done
        split at done
        · cases done
        · cases done
          rfl
    · cases done
      rfl

theorem clearLocked_segments (done : log.clearLocked = .ok log') : log'.shm.segments = log.shm.segments := by
  simp only [clearLocked] at done
  split at done
  · cases done
  · cases done
    rfl

/-- The third cell of the constructor takes the segment of the second. -/
theorem construct_segments {shm : Shm} {first second third : Allocation}
    (done : construct shm len first second third = .ok (some log)) :
    log.shm.segments.length ≤ shm.segments.length + 2 := by
  unfold construct at done
  obtain ⟨⟨shm₁, made⟩, created₁, done⟩ := bind_eq_ok.mp done
  cases made with
  | none => cases done
  | some head =>
    obtain ⟨chained, chain, done⟩ := bind_eq_ok.mp done
    unfold Shm.chainCells at chain
    obtain ⟨⟨shm₂, made⟩, created₂, chain⟩ := bind_eq_ok.mp chain
    cases made with
    | none =>
      cases chain
      cases done
    | some next =>
      dsimp only at chain
      unfold Shm.chainCells at chain
      obtain ⟨⟨shm₃, made⟩, created₃, chain⟩ := bind_eq_ok.mp chain
      cases made with
      | none =>
        cases chain
        cases done
      | some again =>
        cases chain
        cases done
        obtain ⟨spec, _, _⟩ := Shm.of_createCellBuffer created₂
        have known : (shm₂.link head next).lookup _ = _ := spec.lookup
        have same := Shm.createCellBuffer_known known created₃
        have one := Shm.createCellBuffer_segments created₁
        have two := Shm.createCellBuffer_segments created₂
        change shm₃.segments.length ≤ _
        rw [same]
        exact two.trans (Nat.add_le_add_right one 1)

end CRingLog

/-- A step makes no more segments than it counts cells. -/
theorem LogState.act_segments {s s' : LogState} (taken : s.act step = some (.ok s')) :
    s'.log.shm.segments.length + s.log.buffCnt ≤ s.log.shm.segments.length + s'.log.buffCnt := by
  cases step with
  | enter producer curSec logLine =>
    simp only [act] at taken
    split at taken
    · split at taken <;> cases taken <;> exact le_rfl
    · cases taken
  | unthrottle producer =>
    simp only [act] at taken
    split at taken
    · cases taken
      exact le_rfl
    · cases taken
  | append producer =>
    simp only [act] at taken
    split at taken
    · obtain ⟨⟨log, accepted⟩, done, rest⟩ := bind_eq_ok.mp (Option.some.inj taken)
      cases rest
      exact CRingLog.appendLocked_segments done
    · cases taken
  | check =>
    simp only [act] at taken
    split at taken
    · obtain ⟨⟨log, go⟩, done, rest⟩ := bind_eq_ok.mp (Option.some.inj taken)
      cases rest
      have count := (CRingLog.checkLocked_extends done).buffCnt
      change log.shm.segments.length + _ ≤ _ + log.buffCnt
      rw [CRingLog.checkLocked_segments done]
      omega
    · cases taken
  | persist opened =>
    simp only [act] at taken
    split at taken
    · split at taken <;> cases taken <;> exact le_rfl
    · cases taken
  | clear =>
    simp only [act] at taken
    split at taken
    · obtain ⟨log, done, rest⟩ := bind_eq_ok.mp (Option.some.inj taken)
      cases rest
      have count := (CRingLog.clearLocked_extends done).buffCnt
      change log.shm.segments.length + _ ≤ _ + log.buffCnt
      rw [CRingLog.clearLocked_segments done]
      omega
    · cases taken

/-- What every state of every generation keeps. -/
def Life.Keeps : Life → Prop
  | .down shm index => shm.Left index
  | .up s => ∃ full free, s.Keeps full free ∧ s.log.Named (full ++ free) ∧ (full ++ free).length + 1 = s.log.buffCnt ∧
    s.log.shm.Owned ((full ++ free).map CellPtr.shmId)

/-- In every generation the ring is all there is of shared memory. When the process has died, the next start and the
tool come to an end, and the start removes what it finds: with two cells it begins again. -/
def Life.Tidy : Life → Prop
  | .up s => s.Owns
  | .down shm index => shm.Left index ∧ ∀ rounds, shm.segments.length ≤ rounds →
    (∀ oneBuffLen, ∃ log, CRingLog.create shm index rounds oneBuffLen .succeeds .succeeds .succeeds = .ok (some log) ∧
      (LogState.start log).Owns ∧ log.shm.segments.length = 2) ∧
    ∀ isDel, ∃ r, shm.recover index isDel rounds = .ok (some r) ∧
      r.shm.segments.length = if isDel then 0 else shm.segments.length

namespace Shm

variable {shm shm' : Shm}

theorem Owned.length (owned : shm.Owned ids) : shm.segments.length = ids.length := by
  have same := owned.length_eq
  rwa [List.length_map] at same

theorem owned_nil (empty : shm.segments = []) : shm.Owned [] := by
  rw [Owned, empty]
  exact .refl _

theorem Left.cleared (left : shm.Left index) (done : shm.getPrstCBShmId index rounds = .ok (some shm')) :
    shm'.segments = [] := by
  cases index with
  | none =>
    cases done
    exact List.map_eq_nil_iff.mp left.eq_nil
  | some head =>
    obtain ⟨ids, loop, owned⟩ := left
    obtain ⟨rest, rfl⟩ := loop.ring.eq_cons
    obtain ⟨fresh, _⟩ := List.nodup_cons.mp loop.ring.nodup
    rw [getPrstCBShmId, removeRing_leads loop.ring.leads fresh loop.ring.nodup loop.segments] at done
    split at done
    · cases done
      rw [foldl_remove_segments, owned.filter_nil]
    · cases done

/-- With rounds enough, the start gets through. -/
theorem Left.clears (left : shm.Left index) (enough : shm.segments.length ≤ rounds) :
    ∃ shm', shm.getPrstCBShmId index rounds = .ok (some shm') := by
  cases index with
  | none => exact ⟨shm, rfl⟩
  | some head =>
    obtain ⟨ids, loop, owned⟩ := left
    exact ⟨_, loop.getPrstCBShmId rounds (owned.length ▸ enough)⟩

theorem Left.recovers (left : shm.Left index) (isDel : Bool) (enough : shm.segments.length ≤ rounds) :
    ∃ r, shm.recover index isDel rounds = .ok (some r) ∧
      r.shm.segments.length = if isDel then 0 else shm.segments.length := by
  cases index with
  | none =>
    have none_ : shm.segments = [] := List.map_eq_nil_iff.mp left.eq_nil
    exact ⟨_, rfl, by simp [none_]⟩
  | some head =>
    obtain ⟨ids, loop, owned⟩ := left
    obtain ⟨r, recovers, _, _, after⟩ := loop.recover isDel rounds
    rw [if_pos (owned.length ▸ enough)] at recovers
    refine ⟨r, recovers, ?_⟩
    cases isDel with
    | false => rw [after.2.2]; rfl
    | true =>
      rw [if_pos rfl] at after
      rw [after.2.2, owned.filter_nil]
      rfl

/-- The tool leaves the ring as it is, or nothing. -/
theorem Left.flush (left : shm.Left index) (flushed : shm.recover index isDel rounds = .ok (some r)) :
    r.shm.Left r.index := by
  cases index with
  | none =>
    cases flushed
    exact left
  | some head =>
    obtain ⟨ids, loop, owned⟩ := left
    obtain ⟨r', recovers, _, _, after⟩ := loop.recover isDel rounds
    split at recovers
    · cases recovers.symm.trans flushed
      cases isDel with
      | false =>
        rw [if_neg Bool.false_ne_true] at after
        rw [after.1, after.2.2]
        exact ⟨ids, loop, owned⟩
      | true =>
        rw [if_pos rfl] at after
        rw [after.1]
        exact owned_nil (after.2.2.trans owned.filter_nil)
    · cases recovers.symm.trans flushed

end Shm

namespace Life

variable {shm : Shm} {log : CRingLog}

/-- A start makes a ring of two cells out of nothing. -/
theorem boot_keeps (left : shm.Left index)
    (made : CRingLog.create shm index rounds oneBuffLen .succeeds .succeeds .succeeds = .ok (some log)) :
    (up (.start log)).Keeps ∧ log.shm.segments.length = 2 := by
  have constructed : log.Constructed := ⟨shm, index, rounds, oneBuffLen, made⟩
  obtain ⟨cells, shape, _, named⟩ := constructed.named
  obtain ⟨_, _, _, _, head, second, _, built⟩ := constructed.built
  have two : cells = [head, second] := shape.links.ring.unique built.shape.links.ring
  have few : log.shm.segments.length ≤ 2 := by
    unfold CRingLog.create at made
    obtain ⟨cleared, clears, made⟩ := bind_eq_ok.mp made
    cases cleared with
    | none => cases made
    | some shm' =>
      have none_ := left.cleared clears
      have more := CRingLog.construct_segments made
      rw [none_] at more
      exact more
  have owned := shape.links.owned (by rw [two]; exact few)
  refine ⟨⟨[], cells, LogState.keeps_start shape, named, ?_, owned⟩, ?_⟩
  · rw [two]
    exact built.buffCnt.symm
  · have count := Shm.Owned.length owned
    rw [two] at count
    exact count

theorem Keeps.next {life life' : Life} (keeps : life.Keeps) (next : life.Next step life') : life'.Keeps := by
  cases next with
  | boot made => exact (boot_keeps keeps made).1
  | @log s step s' taken =>
    obtain ⟨full, free, kept, named, short, owned⟩ := keeps
    obtain ⟨_, full', free', same, follows⟩ := kept.act taken
    cases same
    have count := follows.count
    have segments := LogState.act_segments taken
    have before : s.log.shm.segments.length = ((full ++ free).map CellPtr.shmId).length := owned.length
    rw [List.length_map] at before
    exact ⟨full', free', follows.keeps, (kept.carries named taken follows.keeps).named, by omega,
      follows.keeps.shape.links.owned (by omega)⟩
  | die s =>
    obtain ⟨full, free, kept, named, _, owned⟩ := keeps
    exact ⟨_, named.loop kept.shape.links, owned⟩
  | flush flushed => exact Shm.Left.flush keeps flushed

theorem Keeps.owns {s : LogState} (keeps : (up s).Keeps) : s.Owns := by
  obtain ⟨full, free, kept, _, short, owned⟩ := keeps
  exact ⟨_, kept.shape.links.ring, short, owned⟩

theorem Keeps.tidy {life : Life} (keeps : life.Keeps) : life.Tidy := by
  cases life with
  | up s => exact keeps.owns
  | down shm index =>
    refine ⟨keeps, fun rounds enough => ⟨fun oneBuffLen => ?_, fun isDel => Shm.Left.recovers keeps isDel enough⟩⟩
    obtain ⟨shm', clears⟩ := Shm.Left.clears keeps enough
    obtain ⟨log, constructs, _⟩ := CRingLog.construct_built shm' oneBuffLen
    have made : CRingLog.create shm index rounds oneBuffLen .succeeds .succeeds .succeeds = .ok (some log) := by
      rw [CRingLog.create, clears]
      exact constructs
    obtain ⟨kept, two⟩ := boot_keeps keeps made
    exact ⟨log, made, kept.owns, two⟩

theorem reachable_keeps (reachable : lifeSystem.Reachable (fun _ _ => True) life) : life.Keeps := by
  refine reachable.invariant Keeps ?_ fun _ _ _ keeps _ next => keeps.next next
  rintro _ rfl
  exact Shm.owned_nil rfl

theorem run_log {initial : CRingLog → Prop} {steps : List LogStep} {s s' : LogState}
    (run : (logSystem initial).Run s steps s') : lifeSystem.Run (.up s) (steps.map .log) (.up s') := by
  induction steps generalizing s with
  | nil =>
    cases run
    exact rfl
  | cons step steps ih =>
    obtain ⟨between, taken, rest⟩ := run
    exact ⟨.up between, .log taken, ih rest⟩

end Life

/-- Over any number of starts, deaths and rounds of the tool, no segment is lost sight of. -/
theorem tidy_of_reachable (reachable : lifeSystem.Reachable (fun _ _ => True) life) : life.Tidy :=
  (Life.reachable_keeps reachable).tidy

/-- The first process dies with a ring of 101 cells, and the next begins again with two. -/
theorem overflowed_tidy :
    ∃ (s : LogState) (log : CRingLog), lifeSystem.Run (.down .empty none)
        ([.boot 0 (30 * 1024 * 1024)] ++ overflowSteps.map .log ++ [.die, .boot 101 (30 * 1024 * 1024)])
        (.up (.start log)) ∧
      s.log.buffCnt = 102 ∧ (Life.down s.log.shm (some s.log.prstBCShmId)).Tidy ∧ (Life.up (.start log)).Tidy := by
  obtain ⟨log, done, size, _, _, _, _, _, _, built⟩ := CRingLog.construct_built .empty (30 * 1024 * 1024)
  obtain ⟨s, run, overflowed⟩ := LogState.overflow_run CRingLog.Constructed built size
  have boots : lifeSystem.Run (.down .empty none) [.boot 0 (30 * 1024 * 1024)] (.up (.start log)) :=
    ⟨_, .boot done, rfl⟩
  have first := boots.append (Life.run_log run)
  have alive : lifeSystem.Reachable (fun _ _ => True) (.up s) := System.Reachable.run (.init rfl) first
  have died : lifeSystem.Reachable (fun _ _ => True) (.down s.log.shm (some s.log.prstBCShmId)) :=
    .step alive trivial (.die s)
  have few : s.log.shm.segments.length ≤ 101 := by
    obtain ⟨cells, _, count, owned⟩ := (Life.reachable_keeps alive).owns
    rw [owned.length, List.length_map]
    have buffCnt := overflowed.buffCnt
    omega
  obtain ⟨restarts, _⟩ := (tidy_of_reachable died).2 101 few
  obtain ⟨log', made, _⟩ := restarts (30 * 1024 * 1024)
  have again : lifeSystem.Run (.up s) [.die, .boot 101 (30 * 1024 * 1024)] (.up (.start log')) :=
    ⟨_, .die s, _, .boot made, rfl⟩
  have whole := first.append again
  exact ⟨s, log', whole, overflowed.buffCnt, tidy_of_reachable died,
    tidy_of_reachable (System.Reachable.run (.init rfl) whole)⟩

end WSlyh.Log
