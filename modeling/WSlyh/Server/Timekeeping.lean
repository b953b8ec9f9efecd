import WSlyh.Server.Bookkeeping

/-! Accepting a connection, renewing its timer, and the tick that closes idle ones. -/

namespace WSlyh.Server

open Http Timer

/-- A new timer in the heap. -/
structure Gains (heap : CTimerHeap) (timer : TimerPtr) (fd expireTime : Int) (heap' : CTimerHeap) : Prop where
  placed : heap'.Placed
  fresh : ¬ heap.Mem timer
  members : ∀ other, heap'.Mem other ↔ heap.Mem other ∨ other = timer
  node : ∃ pos, heap'.timers timer = ⟨some .callBackFunc, expireTime, fd, pos⟩
  others : ∀ other ≠ timer, ∃ pos, heap'.timers other = { heap.timers other with pos }
  ordered : heap.Ordered → heap'.Ordered

/-- A timer in the heap with a new time. -/
structure Renews (heap : CTimerHeap) (timer : TimerPtr) (expireTime : Int) (heap' : CTimerHeap) : Prop where
  placed : heap'.Placed
  members : ∀ other, heap'.Mem other ↔ heap.Mem other
  node : ∃ pos, heap'.timers timer = { heap.timers timer with expireTime, pos }
  others : ∀ other ≠ timer, ∃ pos, heap'.timers other = { heap.timers other with pos }
  ordered : heap.Ordered → heap.expire timer ≤ expireTime → heap'.Ordered

theorem SClientData.Leads.move {data : SClientData} {timer : TimerPtr} (leads : data.Leads heap fd timer)
    (member : heap'.Mem timer) (live : (heap'.timers timer).callbackFunc = (heap.timers timer).callbackFunc)
    (client : (heap'.timers timer).clientData = (heap.timers timer).clientData) : data.Leads heap' fd timer :=
  ⟨leads.found, leads.sockFd, member, live.trans leads.live, client.trans leads.clientData⟩

theorem Gains.leads {data : SClientData} (gains : Gains heap timer newFd expireTime heap')
    (leads : data.Leads heap fd other) : data.Leads heap' fd other := by
  obtain ⟨_, same⟩ := gains.others other fun same => gains.fresh (same ▸ leads.member)
  exact leads.move ((gains.members other).mpr (.inl leads.member)) (by rw [same]) (by rw [same])

theorem Renews.same (renews : Renews heap timer expireTime heap') (other : TimerPtr) :
    (heap'.timers other).callbackFunc = (heap.timers other).callbackFunc ∧
      (heap'.timers other).clientData = (heap.timers other).clientData := by
  by_cases here : other = timer
  · obtain ⟨_, node⟩ := renews.node
    rw [here, node]
    exact ⟨rfl, rfl⟩
  · obtain ⟨_, node⟩ := renews.others other here
    rw [node]
    exact ⟨rfl, rfl⟩

theorem Renews.leads {data : SClientData} (renews : Renews heap timer expireTime heap')
    (leads : data.Leads heap fd other) : data.Leads heap' fd other :=
  leads.move ((renews.members other).mpr leads.member) (renews.same other).1 (renews.same other).2

theorem clientTimer_self (heap : CTimerHeap) (fd now : Int) :
    (clientTimer heap fd now).1.timers heap.allocated = ⟨some .callBackFunc, now + 3 * timeslot, fd, 0⟩ := by
  simp only [clientTimer, CTimerHeap.newTimer, CTimerHeap.modify, Function.update_self]

theorem clientTimer_other (heap : CTimerHeap) (fd now : Int) (apart : other ≠ heap.allocated) :
    (clientTimer heap fd now).1.timers other = heap.timers other := by
  simp only [clientTimer, CTimerHeap.newTimer, CTimerHeap.modify, Function.update_of_ne apart]

theorem clientTimer_placed {heap : CTimerHeap} (placed : heap.Placed) (fd now : Int) :
    (clientTimer heap fd now).1.Placed :=
  (placed.allocate now (3 * timeslot)).modify heap.allocated
    (fun timer => { timer with clientData := fd, callbackFunc := some .callBackFunc }) fun _ => rfl

namespace Registry

variable {r : Registry} {heap : CTimerHeap} {fd now : Int} {timer : TimerPtr}

/-- An accepted connection with its timer. -/
def admitted (r : Registry) (connfd : Int) (timer : TimerPtr) (heap : CTimerHeap) (now : Int) : Registry :=
  { r with
    fds := Function.update r.fds connfd (some r.accepted)
    epoll := Function.update r.epoll connfd (some (.armed .epollIn))
    accepted := r.accepted + 1
    httpCnt := r.httpCnt + 1
    clientDatas := Function.update r.clientDatas connfd ⟨connfd, some timer⟩
    timerHeap := heap
    lastActivity := Function.update r.lastActivity connfd now
    clock := now }

theorem register_spec (placed : r.timerHeap.Placed) (connfd now : Int) :
    ∃ timer heap, (((r.opened connfd).addFd connfd).count 1).register connfd now =
        .ok (r.admitted connfd timer heap now) ∧
      Gains r.timerHeap timer connfd (now + 3 * timeslot) heap := by
  have below (i : Nat) (small : i < r.timerHeap.curNum) : r.timerHeap.slot i ≠ r.timerHeap.allocated :=
    (placed.allocated i small).ne
  have fresh : ¬ r.timerHeap.Mem r.timerHeap.allocated := fun ⟨i, small, found⟩ => below i small found
  obtain ⟨heap, added, holds, ordered⟩ :=
    CTimerHeap.addTimer_spec (clientTimer_placed placed connfd now) (Nat.lt_succ_self r.timerHeap.allocated) fresh
  refine ⟨r.timerHeap.allocated, heap, ?_, holds.placed, fresh, holds.members, ?_, fun other apart => ?_,
    fun before => ordered fun i positive small => ?_⟩
  · change (clientTimer r.timerHeap connfd now).1.addTimer (some r.timerHeap.allocated) >>= _ = _
    rw [added]
    rfl
  · obtain ⟨pos, same⟩ := holds.timers r.timerHeap.allocated
    exact ⟨pos, by rw [same, clientTimer_self]⟩
  · obtain ⟨pos, same⟩ := holds.timers other
    exact ⟨pos, by rw [same, clientTimer_other r.timerHeap connfd now apart]⟩
  · have here := clientTimer_other r.timerHeap connfd now (below i small)
    have above := clientTimer_other r.timerHeap connfd now (below _ ((Lib.parent_lt positive).trans small))
    have order := before i positive small
    simp only [CTimerHeap.expire] at order ⊢
    rw [← here, ← above] at order
    exact order

/-- An open connection that was active now. -/
def renewed (r : Registry) (fd : Int) (heap : CTimerHeap) (now : Int) : Registry :=
  { r with timerHeap := heap, lastActivity := Function.update r.lastActivity fd now, clock := now }

theorem renew_spec (placed : r.timerHeap.Placed) (leads : (r.clientDatas fd).Leads r.timerHeap fd timer) (now : Int) :
    ∃ heap, r.renew fd now = .ok (r.renewed fd heap now) ∧
      Renews r.timerHeap timer (now + 3 * timeslot) heap := by
  obtain ⟨heap, adjusted, holds, ordered⟩ := CTimerHeap.adjust_spec placed leads.member (now + 3 * timeslot)
  refine ⟨heap, ?_, holds.placed, holds.members, ?_, fun other apart => ?_, ordered⟩
  · rw [renew]
    dsimp only
    rw [leads.found]
    dsimp only
    rw [adjusted]
    rfl
  · obtain ⟨pos, same⟩ := holds.timers timer
    exact ⟨pos, by rw [same, CTimerHeap.setExpireTime, CTimerHeap.modify_self]⟩
  · obtain ⟨pos, same⟩ := holds.timers other
    exact ⟨pos, by rw [same, CTimerHeap.setExpireTime, CTimerHeap.modify_other _ _ apart]⟩

/-- Neither invariant looks at what is watched. -/
theorem Linked.watch (linked : r.Linked) (epoll : Int → Option Watch) : { r with epoll }.Linked :=
  ⟨linked.placed, linked.leads, linked.inRange, linked.numbered, linked.distinct, linked.httpCnt, linked.closedOnce⟩

theorem Timed.watch (timed : r.Timed) (epoll : Int → Option Watch) : { r with epoll }.Timed :=
  ⟨timed.ordered, timed.expire, timed.past⟩

section Admit

variable {connfd : Int}

theorem admitted_fds (r : Registry) (connfd : Int) (timer : TimerPtr) (heap : CTimerHeap) (now : Int)
    {conn : Nat} (here : (r.admitted connfd timer heap now).fds fd = some conn) :
    fd = connfd ∧ conn = r.accepted ∨ fd ≠ connfd ∧ r.fds fd = some conn := by
  have there : Function.update r.fds connfd (some r.accepted) fd = some conn := here
  by_cases same : fd = connfd
  · rw [same, Function.update_self] at there
    exact .inl ⟨same, (Option.some.inj there).symm⟩
  · rw [Function.update_of_ne same] at there
    exact .inr ⟨same, there⟩

theorem admitted_self (r : Registry) (connfd : Int) (timer : TimerPtr) (heap : CTimerHeap) (now : Int) :
    (r.admitted connfd timer heap now).fds connfd = some r.accepted := Function.update_self ..

theorem openFds_admitted (r : Registry) (timer : TimerPtr) (heap : CTimerHeap) (now : Int)
    (inRange : 0 ≤ connfd ∧ connfd < maxFd) :
    (r.admitted connfd timer heap now).openFds = insert connfd r.openFds := by
  ext fd
  rw [Finset.mem_insert, mem_openFds, mem_openFds]
  by_cases same : fd = connfd
  · subst same
    simp [admitted, inRange]
  · simp [admitted, same]

variable (closed : r.fds connfd = none) (gains : Gains r.timerHeap timer connfd (now + 3 * timeslot) heap)
include closed gains

theorem Linked.admitted (linked : r.Linked) (inRange : 0 ≤ connfd ∧ connfd < maxFd) :
    (r.admitted connfd timer heap now).Linked := by
  obtain ⟨pos, node⟩ := gains.node
  refine ⟨gains.placed, fun fd conn here => ?_, fun fd conn here => ?_, fun fd conn here => ?_,
    fun fd fd' conn here there => ?_, ?_, ?_⟩
  · rcases r.admitted_fds connfd timer heap now here with ⟨rfl, _⟩ | ⟨apart, before⟩
    · refine ⟨timer, ?_⟩
      change (Function.update r.clientDatas fd _ fd).Leads heap fd timer
      rw [Function.update_self]
      exact ⟨rfl, rfl, (gains.members timer).mpr (.inr rfl), by rw [node], by rw [node]⟩
    · obtain ⟨other, leads⟩ := linked.leads fd conn before
      refine ⟨other, ?_⟩
      change (Function.update r.clientDatas connfd _ fd).Leads heap fd other
      rw [Function.update_of_ne apart]
      exact gains.leads leads
  · rcases r.admitted_fds connfd timer heap now here with ⟨rfl, _⟩ | ⟨_, before⟩
    · exact inRange
    · exact linked.inRange fd conn before
  · rcases r.admitted_fds connfd timer heap now here with ⟨_, rfl⟩ | ⟨_, before⟩
    · exact Nat.lt_succ_self _
    · exact (linked.numbered fd conn before).trans (Nat.lt_succ_self _)
  · rcases r.admitted_fds connfd timer heap now here with ⟨rfl, rfl⟩ | ⟨_, first⟩ <;>
      rcases r.admitted_fds _ timer heap now there with ⟨rfl, same⟩ | ⟨_, second⟩
    · rfl
    · exact absurd (linked.numbered fd' _ second) (lt_irrefl _)
    · exact absurd (same ▸ linked.numbered fd _ first) (lt_irrefl _)
    · exact linked.distinct fd fd' conn first second
  · have fresh : connfd ∉ r.openFds := by simp [mem_openFds, closed]
    rw [openFds_admitted r timer heap now inRange, Finset.card_insert_of_notMem fresh]
    change r.httpCnt + 1 = _
    rw [linked.httpCnt, Nat.cast_add, Nat.cast_one]
  · obtain ⟨conns, same, once, past⟩ := linked.closedOnce
    refine ⟨conns, same, once, fun conn member => ⟨(past conn member).1.trans (Nat.lt_succ_self _), fun fd here => ?_⟩⟩
    rcases r.admitted_fds connfd timer heap now here with ⟨_, rfl⟩ | ⟨_, before⟩
    · exact lt_irrefl _ (past _ member).1
    · exact (past conn member).2 fd before

theorem Exact.admitted (exact_ : r.Exact) : (r.admitted connfd timer heap now).Exact := by
  intro other member live
  by_cases new : other = timer
  · refine ⟨connfd, r.accepted, Function.update_self .., ?_⟩
    change (Function.update r.clientDatas connfd _ connfd).timer = some other
    rw [Function.update_self, new]
  · obtain ⟨pos, same⟩ := gains.others other new
    have old : r.timerHeap.Mem other := ((gains.members other).mp member).resolve_right new
    change (heap.timers other).callbackFunc ≠ none at live
    rw [same] at live
    obtain ⟨fd, conn, isOpen, found⟩ := exact_ other old live
    have apart : fd ≠ connfd := by
      rintro rfl
      rw [closed] at isOpen
      cases isOpen
    refine ⟨fd, conn, (Function.update_of_ne apart ..).trans isOpen, ?_⟩
    change (Function.update r.clientDatas connfd _ fd).timer = some other
    rw [Function.update_of_ne apart, found]

theorem Timed.admitted (timed : r.Timed) (linked : r.Linked) (later : r.clock ≤ now) :
    (r.admitted connfd timer heap now).Timed := by
  refine ⟨gains.ordered timed.ordered, fun fd conn other here found => ?_, fun fd conn here => ?_⟩
  · change heap.expire other = Function.update r.lastActivity connfd now fd + 3 * timeslot
    replace found : (Function.update r.clientDatas connfd ⟨connfd, some timer⟩ fd).timer = some other := found
    rcases r.admitted_fds connfd timer heap now here with ⟨rfl, _⟩ | ⟨apart, before⟩
    · obtain ⟨pos, node⟩ := gains.node
      rw [Function.update_self] at found
      rw [← Option.some.inj found, Function.update_self, CTimerHeap.expire, node]
    · rw [Function.update_of_ne apart] at found
      obtain ⟨timer', leads⟩ := linked.leads fd conn before
      have own := Option.some.inj (leads.found.symm.trans found)
      obtain ⟨pos, same⟩ := gains.others other fun new => gains.fresh (new ▸ own ▸ leads.member)
      rw [Function.update_of_ne apart, CTimerHeap.expire, same]
      exact timed.expire fd conn other before found
  · change Function.update r.lastActivity connfd now fd ≤ now
    rcases r.admitted_fds connfd timer heap now here with ⟨rfl, _⟩ | ⟨apart, before⟩
    · rw [Function.update_self]
    · rw [Function.update_of_ne apart]
      exact (timed.past fd conn before).trans later

end Admit

theorem refused_fds (closed : r.fds connfd = none) : ((r.opened connfd).close connfd).fds = r.fds := by
  change Function.update (Function.update r.fds connfd _) connfd none = r.fds
  rw [Function.update_idem, ← closed, Function.update_eq_self]

/-- A connection that is accepted and closed at once. -/
theorem Linked.refused (linked : r.Linked) (closed : r.fds connfd = none) :
    ((r.opened connfd).close connfd).Linked := by
  have fds := refused_fds closed
  refine ⟨linked.placed, fun fd conn here => ?_, fun fd conn here => ?_, fun fd conn here => ?_,
    fun fd fd' conn here there => ?_, ?_, ?_⟩
  · exact linked.leads fd conn (fds ▸ here)
  · exact linked.inRange fd conn (fds ▸ here)
  · exact (linked.numbered fd conn (fds ▸ here)).trans (Nat.lt_succ_self _)
  · exact linked.distinct fd fd' conn (fds ▸ here) (fds ▸ there)
  · rw [openFds, fds]
    exact linked.httpCnt
  · obtain ⟨conns, same, once, past⟩ := linked.closedOnce
    have fresh : r.accepted ∉ conns := fun member => lt_irrefl _ (past _ member).1
    refine ⟨conns ++ [r.accepted], ?_, ?_, fun conn member => ?_⟩
    · change r.closed ++ [Function.update r.fds connfd _ connfd] = _
      rw [Function.update_self, same, List.map_append]
      rfl
    · refine List.nodup_append.mpr ⟨once, List.nodup_singleton _, fun conn old other new same => fresh ?_⟩
      have last : conn = r.accepted := same.trans (List.mem_singleton.mp new)
      exact last ▸ old
    · rw [fds]
      rcases List.mem_append.mp member with old | new
      · exact ⟨(past conn old).1.trans (Nat.lt_succ_self _), (past conn old).2⟩
      · rw [List.mem_singleton.mp new]
        exact ⟨Nat.lt_succ_self _, fun fd here => lt_irrefl _ (linked.numbered fd _ here)⟩

theorem Exact.refused (exact_ : r.Exact) (closed : r.fds connfd = none) : ((r.opened connfd).close connfd).Exact := by
  intro timer member live
  obtain ⟨fd, conn, isOpen, found⟩ := exact_ timer member live
  refine ⟨fd, conn, ?_, found⟩
  rw [refused_fds closed]
  exact isOpen

theorem Timed.refused (timed : r.Timed) (closed : r.fds connfd = none) : ((r.opened connfd).close connfd).Timed := by
  refine ⟨timed.ordered, fun fd conn timer here found => ?_, fun fd conn here => ?_⟩
  · exact timed.expire fd conn timer (refused_fds closed ▸ here) found
  · exact timed.past fd conn (refused_fds closed ▸ here)

section Renew

variable (renews : Renews r.timerHeap timer (now + 3 * timeslot) heap)
include renews

theorem Linked.renewed (linked : r.Linked) : (r.renewed fd heap now).Linked := by
  refine ⟨renews.placed, fun fd conn here => ?_, linked.inRange, linked.numbered, linked.distinct, linked.httpCnt,
    linked.closedOnce⟩
  obtain ⟨other, leads⟩ := linked.leads fd conn here
  exact ⟨other, renews.leads leads⟩

theorem Exact.renewed (exact_ : r.Exact) : (r.renewed fd heap now).Exact := by
  intro other member live
  refine exact_ other ((renews.members other).mp member) ?_
  rw [← (renews.same other).1]
  exact live

theorem Timed.renewed (timed : r.Timed) (linked : r.Linked) {conn : Nat} (isOpen : r.fds fd = some conn)
    (leads : (r.clientDatas fd).Leads r.timerHeap fd timer) (later : r.clock ≤ now) :
    (r.renewed fd heap now).Timed := by
  have past := (timed.past fd _ isOpen).trans later
  have grows : r.timerHeap.expire timer ≤ now + 3 * timeslot := by
    rw [timed.expire fd _ timer isOpen leads.found]
    omega
  refine ⟨renews.ordered timed.ordered grows, fun fd' conn' other here found => ?_, fun fd' conn' here => ?_⟩
  · change heap.expire other = Function.update r.lastActivity fd now fd' + 3 * timeslot
    by_cases same : fd' = fd
    · subst same
      obtain ⟨_, node⟩ := renews.node
      rw [Function.update_self, ← Option.some.inj (leads.found.symm.trans found), CTimerHeap.expire, node]
    · obtain ⟨own, theirs⟩ := linked.leads fd' conn' here
      have apart : other ≠ timer := by
        rintro rfl
        rw [← Option.some.inj (theirs.found.symm.trans found)] at leads
        exact same (theirs.clientData.symm.trans leads.clientData)
      obtain ⟨_, node⟩ := renews.others other apart
      rw [Function.update_of_ne same, CTimerHeap.expire, node]
      exact timed.expire fd' conn' other here found
  · change Function.update r.lastActivity fd now fd' ≤ now
    by_cases same : fd' = fd
    · rw [same, Function.update_self]
    · rw [Function.update_of_ne same]
      exact (timed.past fd' conn' here).trans later

end Renew

section Tick

variable {popped : List TimerPtr}

theorem mem_called (popped : List TimerPtr) (fd : Int) :
    fd ∈ heap.called popped ↔ ∃ timer ∈ popped, (heap.timers timer).callbackFunc ≠ none ∧
      (heap.timers timer).clientData = fd := by
  simp only [CTimerHeap.called, List.mem_map, List.mem_filter, Option.isSome_iff_ne_none, and_assoc]

/-- What a `Tick` leaves that popped these timers. -/
def ticked (r : Registry) (popped : List TimerPtr) (heap : CTimerHeap) (now : Int) : Registry :=
  { r.evict (r.timerHeap.called popped) with timerHeap := heap, clock := now }

theorem tick_eq (placed : r.timerHeap.Placed) (now : Int)
    (calls : ∀ popped heap, r.timerHeap.Ticked now popped heap → (r.timerHeap.called popped).Nodup ∧
      ∀ fd ∈ r.timerHeap.called popped, (r.clientDatas fd).sockFd = fd) :
    ∃ popped heap, r.tick now = .ok (r.ticked popped heap now) ∧ r.timerHeap.Ticked now popped heap := by
  obtain ⟨heap, done, ticked⟩ := CTimerHeap.tick_spec placed now
  obtain ⟨nodup, own⟩ := calls _ heap ticked
  refine ⟨_, heap, ?_, ticked⟩
  rw [tick, done]
  exact congrArg Except.ok (foldl_callBackFunc nodup own)

theorem Linked.ticked (linked : r.Linked) (ticked : r.timerHeap.Ticked now popped heap)
    (nodup : (r.timerHeap.called popped).Nodup) (opened : ∀ fd ∈ r.timerHeap.called popped, (r.fds fd).isSome) :
    (r.ticked popped heap now).Linked := by
  refine linked.evict nodup opened heap ticked.holds.placed now fun fd timer left _ leads => ?_
  have stays : timer ∉ popped := fun member => left ((mem_called popped fd).mpr
    ⟨timer, member, by rw [leads.live]; exact Option.some_ne_none _, leads.clientData⟩)
  exact leads.move ((ticked.holds.members timer).mpr ⟨leads.member, stays⟩) (ticked.holds.callbackFunc timer)
    (ticked.holds.clientData timer)

section Exact

variable (linked : r.Linked) (exact_ : r.Exact) (pops : r.timerHeap.Ticked now popped heap)
include linked exact_ pops

/-- A `Tick` calls back the client data of open connections, of each whose timer it pops. -/
theorem mem_called_iff (fd : Int) :
    fd ∈ r.timerHeap.called popped ↔
      ∃ conn timer, r.fds fd = some conn ∧ (r.clientDatas fd).Leads r.timerHeap fd timer ∧ timer ∈ popped := by
  rw [mem_called]
  constructor
  · rintro ⟨timer, member, live, client⟩
    obtain ⟨fd', conn, isOpen, found⟩ := exact_ timer (pops.members timer member) live
    obtain ⟨own, leads⟩ := linked.leads fd' conn isOpen
    obtain rfl := Option.some.inj (leads.found.symm.trans found)
    obtain rfl := leads.clientData.symm.trans client
    exact ⟨conn, own, isOpen, leads, member⟩
  · rintro ⟨conn, timer, isOpen, leads, member⟩
    exact ⟨timer, member, by rw [leads.live]; exact Option.some_ne_none _, leads.clientData⟩

theorem called_nodup : (r.timerHeap.called popped).Nodup := by
  refine (pops.nodup.filter _).map_on fun first here second there same => ?_
  have owner (timer : TimerPtr)
      (member : timer ∈ popped.filter fun timer => (r.timerHeap.timers timer).callbackFunc.isSome) :
      (r.clientDatas (r.timerHeap.timers timer).clientData).timer = some timer := by
    obtain ⟨among, live⟩ := List.mem_filter.mp member
    obtain ⟨fd, conn, isOpen, found⟩ := exact_ timer (pops.members timer among) (Option.isSome_iff_ne_none.mp live)
    obtain ⟨own, leads⟩ := linked.leads fd conn isOpen
    obtain rfl := Option.some.inj (leads.found.symm.trans found)
    rw [leads.clientData]
    exact found
  have found := owner first here
  rw [same, owner second there] at found
  exact (Option.some.inj found).symm

theorem called_open : ∀ fd ∈ r.timerHeap.called popped, (r.fds fd).isSome := by
  intro fd member
  obtain ⟨conn, _, isOpen, _⟩ := (mem_called_iff linked exact_ pops fd).mp member
  exact Option.isSome_of_eq_some isOpen

theorem called_sockFd : ∀ fd ∈ r.timerHeap.called popped, (r.clientDatas fd).sockFd = fd := by
  intro fd member
  obtain ⟨_, _, _, leads, _⟩ := (mem_called_iff linked exact_ pops fd).mp member
  exact leads.sockFd

theorem Exact.ticked : (r.ticked popped heap now).Exact := by
  intro timer member live
  obtain ⟨before, stays⟩ := (pops.holds.members timer).mp member
  change (heap.timers timer).callbackFunc ≠ none at live
  rw [pops.holds.callbackFunc] at live
  obtain ⟨fd, conn, isOpen, found⟩ := exact_ timer before live
  have left : fd ∉ r.timerHeap.called popped := by
    intro called
    obtain ⟨_, other, _, leads, among⟩ := (mem_called_iff linked exact_ pops fd).mp called
    exact stays (Option.some.inj (leads.found.symm.trans found) ▸ among)
  exact ⟨fd, conn, (if_neg left).trans isOpen, found⟩

end Exact

theorem Timed.ticked (timed : r.Timed) (ticked : r.timerHeap.Ticked now popped heap) (later : r.clock ≤ now) :
    (r.ticked popped heap now).Timed := by
  have stays {fd : Int} {conn : Nat} (here : (r.ticked popped heap now).fds fd = some conn) :
    r.fds fd = some conn := by
    have still : (if fd ∈ r.timerHeap.called popped then none else r.fds fd) = some conn := here
    split at still
    · cases still
    · exact still
  refine ⟨(ticked.ordered timed.ordered).1, fun fd conn timer here found => ?_, fun fd conn here => ?_⟩
  · change heap.expire timer = _
    rw [ticked.holds.expire]
    exact timed.expire fd conn timer (stays here) found
  · exact (timed.past fd conn (stays here)).trans later

end Tick

end Registry

end WSlyh.Server
