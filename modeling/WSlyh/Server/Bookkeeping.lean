import WSlyh.Lib.Lowest
import WSlyh.Server.Registry

/-! Open connections and their timers: each open connection has a live timer of its own in
the heap, and the number of connections and the closed ones are accounted for. -/

namespace WSlyh.Server

open Lib Http Timer

/-- The client data of an open descriptor, and its timer in the heap. -/
structure SClientData.Leads (data : SClientData) (heap : CTimerHeap) (fd : Int) (timer : TimerPtr) : Prop where
  found : data.timer = some timer
  sockFd : data.sockFd = fd
  member : heap.Mem timer
  live : (heap.timers timer).callbackFunc = some .callBackFunc
  clientData : (heap.timers timer).clientData = fd

/-- What holds of the open connections, whoever closes them. -/
structure Registry.Linked (r : Registry) : Prop where
  placed : r.timerHeap.Placed
  leads : ∀ fd conn, r.fds fd = some conn → ∃ timer, (r.clientDatas fd).Leads r.timerHeap fd timer
  inRange : ∀ fd conn, r.fds fd = some conn → 0 ≤ fd ∧ fd < maxFd
  numbered : ∀ fd conn, r.fds fd = some conn → conn < r.accepted
  distinct : ∀ fd fd' conn, r.fds fd = some conn → r.fds fd' = some conn → fd = fd'
  httpCnt : r.httpCnt = r.openFds.card
  closedOnce : ∃ conns : List Nat, r.closed = conns.map some ∧ conns.Nodup ∧
    ∀ conn ∈ conns, conn < r.accepted ∧ ∀ fd, r.fds fd ≠ some conn

/-- No timer in the heap is live but those of the open connections. -/
def Registry.Exact (r : Registry) : Prop :=
  ∀ timer, r.timerHeap.Mem timer → (r.timerHeap.timers timer).callbackFunc ≠ none →
    ∃ fd conn, r.fds fd = some conn ∧ (r.clientDatas fd).timer = some timer

/-- The timers of the open connections tell when they were last active. -/
structure Registry.Timed (r : Registry) : Prop where
  ordered : r.timerHeap.Ordered
  expire : ∀ fd conn timer, r.fds fd = some conn → (r.clientDatas fd).timer = some timer →
    r.timerHeap.expire timer = r.lastActivity fd + 3 * timeslot
  past : ∀ fd conn, r.fds fd = some conn → r.lastActivity fd ≤ r.clock

/-- These descriptors are closed, one after the other. -/
def Registry.evict (r : Registry) (gone : List Int) : Registry :=
  { r with
    fds := fun fd => if fd ∈ gone then none else r.fds fd
    epoll := fun fd => if fd ∈ gone then none else r.epoll fd
    closed := r.closed ++ gone.map r.fds
    httpCnt := r.httpCnt - gone.length }

namespace Registry

variable {r : Registry} {gone : List Int}

theorem mem_openFds {fd : Int} : fd ∈ r.openFds ↔ (0 ≤ fd ∧ fd < maxFd) ∧ (r.fds fd).isSome := by
  rw [openFds, Finset.mem_filter]
  exact and_congr_left fun _ => mem_below

theorem evict_single (r : Registry) (fd : Int) :
    r.evict [fd] = { r with
      fds := Function.update r.fds fd none
      epoll := Function.update r.epoll fd none
      closed := r.closed ++ [r.fds fd]
      httpCnt := r.httpCnt - 1 } := by
  have fds : (fun other => if other ∈ [fd] then none else r.fds other) = Function.update r.fds fd none := by
    funext other
    simp [Function.update_apply]
  have epoll : (fun other => if other ∈ [fd] then none else r.epoll other) = Function.update r.epoll fd none := by
    funext other
    simp [Function.update_apply]
  simp only [evict, fds, epoll, List.map_cons, List.map_nil, List.length_singleton, Nat.cast_one]

theorem closeCount_eq (r : Registry) (fd : Int) : ((r.epollDel fd).close fd).count (-1) = r.evict [fd] := by
  simp only [evict_single, epollDel, close, count, Function.update_idem, Int.sub_eq_add_neg]

theorem callBackFunc_eq (own : (r.clientDatas fd).sockFd = fd) : r.callBackFunc fd = r.evict [fd] := by
  rw [callBackFunc, own, closeCount_eq]

theorem evict_cons (fresh : fd ∉ gone) : (r.evict [fd]).evict gone = r.evict (fd :: gone) := by
  have others : gone.map (r.evict [fd]).fds = gone.map r.fds := by
    refine List.map_congr_left fun other member => if_neg ?_
    rw [List.mem_singleton]
    exact fun same => fresh (same ▸ member)
  have merge {α : Type} (table : Int → Option α) :
      (fun other => if other ∈ gone then none else if other ∈ [fd] then none else table other) =
        fun other => if other ∈ fd :: gone then none else table other := by
    funext other
    simp only [List.mem_cons, List.not_mem_nil, or_false]
    split <;> split <;> simp_all
  rw [evict, others]
  simp only [evict, merge, List.append_assoc, List.map_cons, List.map_nil, List.singleton_append, List.length_cons,
    List.length_nil]
  congr 1
  omega

theorem foldl_callBackFunc (nodup : gone.Nodup) (own : ∀ fd ∈ gone, (r.clientDatas fd).sockFd = fd) :
    gone.foldl callBackFunc r = r.evict gone := by
  induction gone generalizing r with
  | nil => simp [evict]
  | cons fd gone ih =>
    obtain ⟨fresh, nodup⟩ := List.nodup_cons.mp nodup
    rw [List.foldl_cons, callBackFunc_eq (own fd (by simp)),
      ih (r := r.evict [fd]) nodup (fun other member => own other (List.mem_cons_of_mem _ member)), evict_cons fresh]

/-- The connection an open descriptor leads to. -/
def conn (r : Registry) (fd : Int) : Nat := (r.fds fd).getD 0

theorem openFds_evict (r : Registry) (gone : List Int) : (r.evict gone).openFds = r.openFds \ gone.toFinset := by
  ext fd
  rw [Finset.mem_sdiff, mem_openFds, mem_openFds, List.mem_toFinset, evict]
  dsimp only
  split <;> simp_all

/-- Closing some of the open connections, while the timers of the others stay as they are. -/
theorem Linked.evict (linked : r.Linked) (nodup : gone.Nodup) (opened : ∀ fd ∈ gone, (r.fds fd).isSome)
    (heap : CTimerHeap) (placed : heap.Placed) (clock : Int)
    (kept : ∀ fd timer, fd ∉ gone → (r.fds fd).isSome → (r.clientDatas fd).Leads r.timerHeap fd timer →
      (r.clientDatas fd).Leads heap fd timer) :
    { r.evict gone with timerHeap := heap, clock }.Linked := by
  have stays {fd conn} (here : (r.evict gone).fds fd = some conn) : fd ∉ gone ∧ r.fds fd = some conn := by
    simpa [Registry.evict] using here
  refine ⟨placed, fun fd conn here => ?_, fun fd conn here => linked.inRange fd conn (stays here).2,
    fun fd conn here => linked.numbered fd conn (stays here).2,
    fun fd fd' conn here there => linked.distinct fd fd' conn (stays here).2 (stays there).2, ?_, ?_⟩
  · obtain ⟨left, before⟩ := stays here
    obtain ⟨timer, leads⟩ := linked.leads fd conn before
    exact ⟨timer, kept fd timer left (Option.isSome_of_eq_some before) leads⟩
  · have within : gone.toFinset ⊆ r.openFds := by
      intro fd member
      have isOpen := opened fd (List.mem_toFinset.mp member)
      obtain ⟨conn, found⟩ := Option.isSome_iff_exists.mp isOpen
      exact mem_openFds.mpr ⟨linked.inRange fd conn found, isOpen⟩
    have fewer := Finset.card_sdiff_add_card_eq_card within
    rw [List.toFinset_card_of_nodup nodup] at fewer
    change r.httpCnt - gone.length = ((r.evict gone).openFds.card : Int)
    rw [linked.httpCnt, openFds_evict]
    omega
  · obtain ⟨conns, closed, once, past⟩ := linked.closedOnce
    have leadsTo (fd : Int) (member : fd ∈ gone) : r.fds fd = some (r.conn fd) := by
      obtain ⟨conn, found⟩ := Option.isSome_iff_exists.mp (opened fd member)
      rw [Registry.conn, found]
      rfl
    have named : gone.map r.fds = (gone.map r.conn).map some := by
      rw [List.map_map]
      exact List.map_congr_left leadsTo
    have apart : (gone.map r.conn).Nodup := nodup.map_on fun fd here fd' there same =>
      linked.distinct fd fd' _ (leadsTo fd here) (same ▸ leadsTo fd' there)
    refine ⟨conns ++ gone.map r.conn, ?_, List.nodup_append.mpr ⟨once, apart, ?_⟩, fun conn member => ?_⟩
    · change r.closed ++ gone.map r.fds = _
      rw [closed, named, List.map_append]
    · rintro conn old _ new rfl
      obtain ⟨fd, member, rfl⟩ := List.mem_map.mp new
      exact (past _ old).2 fd (leadsTo fd member)
    · rcases List.mem_append.mp member with old | new
      · exact ⟨(past conn old).1, fun fd here => (past conn old).2 fd (stays here).2⟩
      · obtain ⟨fd, among, rfl⟩ := List.mem_map.mp new
        refine ⟨linked.numbered fd _ (leadsTo fd among), fun fd' here => ?_⟩
        obtain ⟨left, still⟩ := stays here
        exact left (linked.distinct fd fd' _ (leadsTo fd among) still ▸ among)

section Close

variable {fd : Int} {timer : TimerPtr}

theorem callBack_eq (leads : (r.clientDatas fd).Leads r.timerHeap fd timer) :
    r.callBack (r.clientDatas fd).timer fd = .ok (r.evict [fd]) := by
  rw [callBack, leads.found, callbackFunc, leads.live, callBackFunc_eq leads.sockFd]
  rfl

/-- What a hang-up, a failed `Read` or a failed `Write` leaves. -/
def dropped (r : Registry) (fd : Int) (timer : TimerPtr) : Registry := (r.evict [fd]).delTimer (some timer)

variable (leads : (r.clientDatas fd).Leads r.timerHeap fd timer)
include leads

theorem hangUp_eq : r.hangUp fd = .ok (r.dropped fd timer) := by
  rw [hangUp, callBack_eq leads, leads.found]
  rfl

theorem readFailed_eq : r.readFailed fd = .ok (r.dropped fd timer) := by
  have live : r.callbackFunc (r.clientDatas fd).timer = .ok (some .callBackFunc) := by
    rw [leads.found, callbackFunc]
    exact congrArg Except.ok leads.live
  rw [readFailed, live, callBack_eq leads, leads.found]
  rfl

theorem writeFailed_eq : r.writeFailed fd = .ok (r.dropped fd timer) := by
  rw [writeFailed, callBack_eq leads, leads.found]
  rfl

theorem Linked.dropped (linked : r.Linked) (isOpen : (r.fds fd).isSome) : (r.dropped fd timer).Linked := by
  refine linked.evict (List.nodup_singleton fd) (by simpa using isOpen) _ (linked.placed.delTimer timer) r.clock
    fun other timer' left _ theirs => ?_
  have apart : timer' ≠ timer := fun same => left (by
    rw [List.mem_singleton, ← theirs.clientData, same, leads.clientData])
  have same := r.timerHeap.delTimer_other apart
  exact ⟨theirs.found, theirs.sockFd, theirs.member, (congrArg _ same).trans theirs.live,
    (congrArg _ same).trans theirs.clientData⟩

theorem Exact.dropped (exact_ : r.Exact) : (r.dropped fd timer).Exact := by
  intro other member live
  change (((r.timerHeap.delTimer (some timer)).timers other).callbackFunc ≠ none) at live
  by_cases apart : other = timer
  · rw [apart, CTimerHeap.delTimer_self] at live
    exact absurd rfl live
  · rw [CTimerHeap.delTimer_other apart] at live
    obtain ⟨fd', conn, isOpen, found⟩ := exact_ other member live
    have left : fd' ∉ [fd] := by
      rw [List.mem_singleton]
      rintro rfl
      exact apart (Option.some.inj (found.symm.trans leads.found))
    exact ⟨fd', conn, (if_neg left).trans isOpen, found⟩

omit leads in
theorem Timed.dropped (timed : r.Timed) (fd : Int) (timer : TimerPtr) : (r.dropped fd timer).Timed := by
  have expire : (r.dropped fd timer).timerHeap.expire = r.timerHeap.expire := r.timerHeap.expire_delTimer timer
  have stays {other conn} (here : (r.dropped fd timer).fds other = some conn) : r.fds other = some conn := by
    have still : (if other ∈ [fd] then none else r.fds other) = some conn := here
    split at still
    · cases still
    · exact still
  refine ⟨?_, fun other conn timer' here found => ?_, fun other conn here => timed.past other conn (stays here)⟩
  · change Lib.HeapOrdered _ _ _
    rw [expire]
    exact timed.ordered
  · rw [expire]
    exact timed.expire other conn timer' (stays here) found

end Close

end Registry

end WSlyh.Server
