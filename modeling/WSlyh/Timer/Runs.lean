import Mathlib.Data.List.Nodup
import WSlyh.Lib.Transition
import WSlyh.Timer.Operations

/-! Any sequence of operations leaves an indexed heap of the timers that were added and not
popped. -/

namespace WSlyh.Timer

open Lib

/-- A timer heap, the timers that were added to it and those that were popped. -/
structure HeapRun where
  heap : CTimerHeap
  added : List TimerPtr
  popped : List TimerPtr

/-- `create` makes a timer and `prepare` changes one outside the heap. `adjust` is `Adjust` after
the timer's time has been set. -/
inductive HeapStep
  | create (now delaytime : Int)
  | prepare (timer : TimerPtr) (expireTime : Int)
  | addTimer (timer : Option TimerPtr)
  | delTimer (timer : Option TimerPtr)
  | adjust (timer : TimerPtr) (expireTime : Int)
  | popTimer
  | tick (curTime : Int)

namespace CTimerHeap

variable {heap heap' : CTimerHeap}

/-- The timers in the heap, from the root on. -/
def members (heap : CTimerHeap) : List TimerPtr := (List.range heap.curNum).map heap.slot

theorem mem_members : timer ∈ heap.members ↔ heap.Mem timer := by
  simp only [members, List.mem_map, List.mem_range, Mem]

instance (heap : CTimerHeap) (timer : TimerPtr) : Decidable (heap.Mem timer) := decidable_of_iff _ mem_members

end CTimerHeap

namespace HeapRun

def start (capacity : Nat) : HeapRun := ⟨.create capacity, [], []⟩

def act (run : HeapRun) : HeapStep → Option (Except Fault HeapRun)
  | .create now delaytime => some (.ok { run with heap := (run.heap.newTimer now delaytime).1 })
  | .prepare timer expireTime =>
    if run.heap.Mem timer then none
    else some (.ok { run with heap := run.heap.setExpireTime timer expireTime })
  | .addTimer none => some do
    let heap ← run.heap.addTimer none
    .ok { run with heap }
  | .addTimer (some timer) =>
    if timer < run.heap.allocated ∧ ¬ run.heap.Mem timer then some do
      let heap ← run.heap.addTimer (some timer)
      .ok { run with heap, added := run.added ++ [timer] }
    else none
  | .delTimer timer => some (.ok { run with heap := run.heap.delTimer timer })
  | .adjust timer expireTime =>
    if run.heap.Mem timer ∧ run.heap.expire timer ≤ expireTime then some do
      let heap ← (run.heap.setExpireTime timer expireTime).adjust timer
      .ok { run with heap }
    else none
  | .popTimer => some do
    let heap ← run.heap.popTimer
    .ok { run with heap, popped := run.popped ++ if run.heap.curNum = 0 then [] else [run.heap.slot 0] }
  | .tick curTime => some do
    let (heap, _) ← run.heap.tick curTime
    .ok { run with heap, popped := run.popped ++ run.heap.roots curTime run.heap.curNum }

end HeapRun

/-- The runs of a heap, from any capacity of at least 1 on. -/
def heapSystem : System HeapRun HeapStep where
  init run := ∃ capacity, 1 ≤ capacity ∧ run = .start capacity
  step run step run' := run.act step = some (.ok run')

/-- The array is a heap of timers that know where they are, and they are those that were added
and not popped. -/
structure HeapRun.Indexed (run : HeapRun) : Prop where
  room : run.heap.curNum ≤ run.heap.capacity
  order : ∀ i, 0 < i → i < run.heap.curNum → ∀ parent child, run.heap.aTimers ((i - 1) / 2) = some parent →
    run.heap.aTimers i = some child → run.heap.expire parent ≤ run.heap.expire child
  pos : ∀ i < run.heap.curNum, ∃ timer, run.heap.aTimers i = some timer ∧ (run.heap.timers timer).pos = i
  distinct : ∀ i j, i < run.heap.curNum → j < run.heap.curNum → run.heap.aTimers i = run.heap.aTimers j → i = j
  contents : ((List.range run.heap.curNum).map run.heap.aTimers ++ run.popped.map some).Perm (run.added.map some)
  noFault : ∀ step fault, run.act step ≠ some (.error fault)

/-- What the operations keep. -/
structure HeapRun.Sound (run : HeapRun) : Prop where
  placed : run.heap.Placed
  ordered : run.heap.Ordered
  contents : (run.heap.members ++ run.popped).Perm run.added

namespace CTimerHeap

variable {heap heap' : CTimerHeap}

theorem Placed.nodup_members (placed : heap.Placed) : heap.members.Nodup := by
  refine (List.nodup_range).map_on fun i here j there same => ?_
  exact placed.distinct (List.mem_range.mp here) (List.mem_range.mp there) same

/-- Timers that are there once each are known by who is there. -/
theorem Placed.members_perm {items : List TimerPtr} (placed : heap.Placed) (nodup : items.Nodup)
    (same : ∀ timer, heap.Mem timer ↔ timer ∈ items) : heap.members.Perm items :=
  (List.perm_ext_iff_of_nodup placed.nodup_members nodup).mpr fun timer => mem_members.trans (same timer)

theorem Ordered.setExpireTime (ordered : heap.Ordered) (outside : ¬ heap.Mem timer) (expireTime : Int) :
    (heap.setExpireTime timer expireTime).Ordered := by
  have expire (i : Nat) (small : i < heap.curNum) :
      (heap.setExpireTime timer expireTime).expire (heap.slot i) = heap.expire (heap.slot i) :=
    congrArg CHeapTimer.expireTime (modify_other _ _ fun same => outside ⟨i, small, same⟩)
  intro i positive small
  have order := ordered i positive small
  rw [← expire i small, ← expire _ ((parent_lt positive).trans small)] at order
  exact order

theorem Ordered.newTimer (ordered : heap.Ordered) (placed : heap.Placed) (now delaytime : Int) :
    (heap.newTimer now delaytime).1.Ordered := by
  have expire (i : Nat) (small : i < heap.curNum) :
      (heap.newTimer now delaytime).1.expire (heap.slot i) = heap.expire (heap.slot i) :=
    congrArg CHeapTimer.expireTime (Function.update_of_ne (placed.allocated i small).ne ..)
  intro i positive small
  have order := ordered i positive small
  rw [← expire i small, ← expire _ ((parent_lt positive).trans small)] at order
  exact order

/-- What is left after these were popped, with them, is what was there. -/
theorem Placed.popped_perm (placed : heap.Placed) (left : heap'.Placed) (nodup : popped.Nodup)
    (among : ∀ timer ∈ popped, heap.Mem timer) (stay : ∀ timer, heap'.Mem timer ↔ heap.Mem timer ∧ timer ∉ popped) :
    (heap'.members ++ popped).Perm heap.members := by
  refine (List.perm_ext_iff_of_nodup ?_ placed.nodup_members).mpr fun timer => ?_
  · refine List.nodup_append.mpr ⟨left.nodup_members, nodup, ?_⟩
    rintro timer member _ taken rfl
    exact ((stay timer).mp (mem_members.mp member)).2 taken
  · rw [List.mem_append, mem_members, mem_members, stay]
    constructor
    · rintro (⟨member, _⟩ | taken)
      · exact member
      · exact among timer taken
    · intro member
      by_cases taken : timer ∈ popped
      · exact .inr taken
      · exact .inl ⟨member, taken⟩

end CTimerHeap

namespace HeapRun

variable {run : HeapRun}

/-- Members that leave the heap for those that were popped. -/
theorem Sound.contents_popped (sound : run.Sound) {heap' : CTimerHeap} {popped : List TimerPtr}
    (perm : (heap'.members ++ popped).Perm run.heap.members) :
    (heap'.members ++ (run.popped ++ popped)).Perm run.added := by
  refine List.Perm.trans ?_ sound.contents
  calc (heap'.members ++ (run.popped ++ popped)).Perm (heap'.members ++ (popped ++ run.popped)) :=
        (List.perm_append_comm).append_left _
    _ = heap'.members ++ popped ++ run.popped := (List.append_assoc ..).symm
    List.Perm _ (run.heap.members ++ run.popped) := perm.append_right _

/-- Every operation succeeds and keeps what is sound. -/
theorem Sound.act (sound : run.Sound) (done : run.act step = some result) :
    ∃ run', result = .ok run' ∧ run'.Sound := by
  obtain ⟨placed, ordered, contents⟩ := sound
  cases step with
  | create now delaytime =>
    obtain rfl := Option.some.inj done
    exact ⟨_, rfl, placed.allocate now delaytime, ordered.newTimer placed now delaytime, contents⟩
  | prepare timer expireTime =>
    simp only [HeapRun.act] at done
    split at done
    · cases done
    · rename_i outside
      obtain rfl := Option.some.inj done
      exact ⟨_, rfl, placed.modify timer (fun node => { node with expireTime }) fun _ => rfl,
        ordered.setExpireTime outside expireTime, contents⟩
  | addTimer timer =>
    cases timer with
    | none =>
      obtain rfl := Option.some.inj done
      exact ⟨run, rfl, placed, ordered, contents⟩
    | some timer =>
      simp only [HeapRun.act] at done
      split at done
      · rename_i may
        obtain ⟨heap', added, holds, order⟩ := CTimerHeap.addTimer_spec placed may.1 may.2
        obtain rfl := Option.some.inj done
        rw [added]
        refine ⟨_, rfl, holds.placed, order ordered, ?_⟩
        have members : heap'.members.Perm (timer :: run.heap.members) :=
          holds.placed.members_perm (List.nodup_cons.mpr ⟨fun member => may.2 (CTimerHeap.mem_members.mp member),
            placed.nodup_members⟩) fun other => by
              rw [holds.members, List.mem_cons, CTimerHeap.mem_members, or_comm]
        calc (heap'.members ++ run.popped).Perm (timer :: (run.heap.members ++ run.popped)) := members.append_right _
          List.Perm _ (timer :: run.added) := contents.cons timer
          List.Perm _ (run.added ++ [timer]) := (List.perm_append_singleton timer run.added).symm
      · cases done
  | delTimer timer =>
    obtain rfl := Option.some.inj done
    cases timer with
    | none => exact ⟨run, rfl, placed, ordered, contents⟩
    | some timer =>
      refine ⟨_, rfl, placed.delTimer timer, ?_, contents⟩
      change HeapOrdered _ _ _
      rw [CTimerHeap.expire_delTimer]
      exact ordered
  | adjust timer expireTime =>
    simp only [HeapRun.act] at done
    split at done
    · rename_i may
      obtain ⟨heap', adjusted, holds, order⟩ := CTimerHeap.adjust_spec placed may.1 expireTime
      obtain rfl := Option.some.inj done
      rw [adjusted]
      refine ⟨_, rfl, holds.placed, order ordered may.2, ?_⟩
      have members : heap'.members.Perm run.heap.members :=
        holds.placed.members_perm placed.nodup_members fun other => by rw [holds.members, CTimerHeap.mem_members]
      exact (members.append_right _).trans contents
    · cases done
  | popTimer =>
    obtain rfl := Option.some.inj done
    by_cases none_ : run.heap.curNum = 0
    · refine ⟨run, ?_, placed, ordered, contents⟩
      rw [CTimerHeap.popTimer, if_pos none_, if_pos none_, List.append_nil]
      rfl
    · obtain ⟨heap', popped, _, holds, order⟩ := CTimerHeap.popTimer_spec placed (Nat.pos_of_ne_zero none_)
      rw [popped, if_neg none_]
      refine ⟨_, rfl, holds.placed, order ordered, Sound.contents_popped ⟨placed, ordered, contents⟩ ?_⟩
      refine placed.popped_perm holds.placed (List.nodup_singleton _) (fun timer member => ?_) fun timer => ?_
      · exact ⟨0, Nat.pos_of_ne_zero none_, (List.mem_singleton.mp member).symm⟩
      · rw [holds.members, List.mem_singleton]
  | tick curTime =>
    obtain rfl := Option.some.inj done
    obtain ⟨heap', ticked, pops⟩ := CTimerHeap.tick_spec placed curTime
    rw [ticked]
    exact ⟨_, rfl, pops.holds.placed, (pops.ordered ordered).1,
      Sound.contents_popped ⟨placed, ordered, contents⟩ 
        (placed.popped_perm pops.holds.placed pops.nodup pops.members pops.holds.members)⟩

theorem start_sound (positive : 1 ≤ capacity) : (start capacity).Sound :=
  ⟨CTimerHeap.create_placed positive, CTimerHeap.create_ordered capacity, List.Perm.refl _⟩

theorem reachable_sound (reachable : heapSystem.Reachable (fun _ _ => True) run) : run.Sound := by
  refine reachable.invariant Sound ?_ ?_
  · rintro _ ⟨capacity, positive, rfl⟩
    exact start_sound positive
  · intro run step run' sound _ done
    obtain ⟨_, same, sound'⟩ := sound.act done
    exact Except.ok.inj same ▸ sound'

theorem Sound.indexed (sound : run.Sound) : run.Indexed := by
  have entry := sound.placed.entry
  refine ⟨sound.placed.room, fun i positive small above below up here => ?_, fun i small => ?_,
    fun i j here there same => ?_, ?_, fun step fault failed => ?_⟩
  · have order := sound.ordered i positive small
    have entryAbove : run.heap.aTimers ((i - 1) / 2) = some (run.heap.slot (parent i)) :=
      entry _ ((parent_lt positive).trans small)
    rw [entryAbove] at up
    rw [entry i small] at here
    rw [Option.some.inj up, Option.some.inj here] at order
    exact order
  · exact ⟨_, entry i small, sound.placed.pos i small⟩
  · rw [entry i here, entry j there] at same
    exact sound.placed.distinct here there (Option.some.inj same)
  · have entries : (List.range run.heap.curNum).map run.heap.aTimers = run.heap.members.map some := by
      rw [CTimerHeap.members, List.map_map]
      exact List.map_congr_left fun i inside => entry i (List.mem_range.mp inside)
    rw [entries, ← List.map_append]
    exact sound.contents.map some
  · obtain ⟨_, same, _⟩ := sound.act failed
    cases same

end HeapRun

/-- The timer array is a correct indexed heap in every run. -/
theorem indexed_of_reachable {run : HeapRun} (reachable : heapSystem.Reachable (fun _ _ => True) run) : run.Indexed :=
  (HeapRun.reachable_sound reachable).indexed

/-- Two timers in an array of one entry, the later of which is added first; the other is popped. -/
def twoTimers : List HeapStep :=
  [.create 0 15, .create 0 5, .addTimer (some 0), .addTimer (some 1), .tick 5]

theorem twoTimers_indexed : ∃ run : HeapRun, run.added = [0, 1] ∧ run.popped = [1] ∧ run.Indexed := by
  have checked : ((System.Reachable.follow HeapRun.act (fun _ _ => true) (.start 1) twoTimers).any
      fun run => run.added == [0, 1] && run.popped == [1]) = true := by decide +kernel
  obtain ⟨run, followed, state⟩ := (Option.any_eq_true ..).mp checked
  rw [Bool.and_eq_true, beq_iff_eq, beq_iff_eq] at state
  exact ⟨run, state.1, state.2, indexed_of_reachable (System.Reachable.followed (.init ⟨1, le_rfl, rfl⟩)
    (fun _ _ _ _ => trivial) (fun _ _ _ => id) followed)⟩

end WSlyh.Timer
