import WSlyh.Server.Accounting

/-! A tick closes the connections that have been idle for three time slots, and touches no
other, as long as the clock does not go back. -/

namespace WSlyh.Server

open Http Timer Lib

/-- The tick that leads to `s'` closes these connections, and leaves everything else alone. -/
structure ServerState.Evicts (s : ServerState) (now : Int) (idle : List Nat) (s' : ServerState) : Prop where
  closed : s'.registry.closed = s.registry.closed ++ idle.map some
  once : idle.Nodup
  exactly : ∀ conn, conn ∈ idle ↔ ∃ fd, s.registry.fds fd = some conn ∧ s.registry.lastActivity fd ≤ now - 15
  gone : ∀ fd conn, s.registry.fds fd = some conn → conn ∈ idle → s'.registry.fds fd = none
  others : ∀ fd, (∀ conn ∈ idle, s.registry.fds fd ≠ some conn) →
    s'.registry.fds fd = s.registry.fds fd ∧ s'.registry.epoll fd = s.registry.epoll fd
  timers : ∀ fd conn timer, s.registry.fds fd = some conn → conn ∉ idle →
    (s.registry.clientDatas fd).timer = some timer → s'.registry.timerHeap.Mem timer ∧
      ∃ pos, s'.registry.timerHeap.timers timer = { s.registry.timerHeap.timers timer with pos }
  clientDatas : s'.registry.clientDatas = s.registry.clientDatas
  lastActivity : s'.registry.lastActivity = s.registry.lastActivity
  frame : s' = { s with registry := s'.registry, timeout := false }

namespace ServerState

variable {s s' : ServerState}

theorem Attended.timed (attended : s.Attended) (timed : s.registry.Timed) (punctual : s.Punctual step)
    (next : s.Next step (.ok s')) : s'.registry.Timed := by
  have linked := attended.linked
  cases next with
  | wait => exact timed.watch _
  | ignored | signals | acceptFails | enterAppend | take | unlock => exact timed
  | refuse idle head listen closed => exact timed.refused closed
  | accept idle head listen closed notListen notPipe inRange gains =>
    exact timed.admitted closed gains linked (punctual.2 _ rfl)
  | drop idle head notListen isOpen leads watched http =>
    rcases watched with rfl | rfl
    · exact timed.dropped _ _
    · exact (timed.watch _).dropped _ _
  | refuseTask idle head notListen isOpen leads noHup readable read full renews =>
    exact timed.renewed renews linked isOpen leads (punctual.2 _ rfl)
  | write idle head notListen isOpen leads sockFd watch renews =>
    exact (timed.watch _).renewed renews (linked.watch _) isOpen leads (punctual.2 _ rfl)
  | append appending free isOpen leads renews =>
    exact timed.renewed renews linked isOpen leads (punctual.2 _ rfl)
  | timer idle handled done =>
    obtain ⟨popped, heap, ticked, pops⟩ := attended.ticked _
    obtain rfl := Except.ok.inj (done.symm.trans ticked)
    exact timed.ticked pops (punctual.2 _ rfl)
  | finish running done =>
    rcases httpParseTask_hands done with ⟨watch, _, rfl⟩ | ⟨_, rfl, _⟩ | ⟨_, rfl⟩
    · exact timed.watch _
    · exact timed
    · exact absurd ⟨_, _, _, _, _, _, rfl, running, done, List.mem_cons_self⟩ punctual.1.2

theorem reachable_timed (reachable : serverSystem.Reachable Punctual s) : s.Attended ∧ s.registry.Timed := by
  refine reachable.invariant (fun s => s.Attended ∧ s.registry.Timed) ?_ ?_
  · rintro _ ⟨listenFd, pipeFd, capacity, now, positive, rfl⟩
    exact ⟨start_attended listenFd pipeFd now positive, CTimerHeap.create_ordered capacity, nofun, nofun⟩
  · rintro s step s' ⟨attended, timed⟩ punctual done
    have next := attended.act punctual.1 done
    exact ⟨attended.next punctual.1 next, attended.timed timed punctual next⟩

/-- In the order of their times, the timers of idle connections are those that a tick pops. -/
theorem Attended.mem_called (attended : s.Attended) (timed : s.registry.Timed)
    (pops : s.registry.timerHeap.Ticked now popped heap) (fd : Int) :
    fd ∈ s.registry.timerHeap.called popped ↔
      (s.registry.fds fd).isSome ∧ s.registry.lastActivity fd ≤ now - 15 := by
  rw [Registry.mem_called_iff attended.linked attended.exact_ pops]
  constructor
  · rintro ⟨conn, timer, isOpen, leads, member⟩
    have due := pops.due timer member
    rw [timed.expire fd conn timer isOpen leads.found, timeslot] at due
    exact ⟨Option.isSome_of_eq_some isOpen, by omega⟩
  · rintro ⟨isOpen, idle⟩
    obtain ⟨conn, found⟩ := Option.isSome_iff_exists.mp isOpen
    obtain ⟨timer, leads⟩ := attended.linked.leads fd conn found
    refine ⟨conn, timer, found, leads, ?_⟩
    by_contra stays
    have later := (pops.ordered timed.ordered).2 timer ((pops.holds.members timer).mpr ⟨leads.member, stays⟩)
    rw [timed.expire fd conn timer found leads.found, timeslot] at later
    omega

theorem Attended.evicts (attended : s.Attended) (timed : s.registry.Timed) (done : s.act (.timer now) = some result) :
    ∃ s' idle, result = .ok s' ∧ s.Evicts now idle s' := by
  obtain ⟨popped, heap, ticked, pops⟩ := attended.ticked now
  have called := attended.mem_called timed pops
  have nodup := Registry.called_nodup attended.linked attended.exact_ pops
  have leadsTo (fd : Int) (member : fd ∈ s.registry.timerHeap.called popped) :
      s.registry.fds fd = some (s.registry.conn fd) := by
    obtain ⟨conn, found⟩ := Option.isSome_iff_exists.mp ((called fd).mp member).1
    rw [Registry.conn, found]
    rfl
  have exactly (conn : Nat) : conn ∈ (s.registry.timerHeap.called popped).map s.registry.conn ↔
      ∃ fd, s.registry.fds fd = some conn ∧ fd ∈ s.registry.timerHeap.called popped := by
    rw [List.mem_map]
    constructor
    · rintro ⟨fd, member, rfl⟩
      exact ⟨fd, leadsTo fd member, member⟩
    · rintro ⟨fd, found, member⟩
      exact ⟨fd, member, Option.some.inj ((leadsTo fd member).symm.trans found)⟩
  simp only [ServerState.act] at done
  split at done
  · obtain rfl := Option.some.inj done
    rw [ticked]
    refine ⟨_, (s.registry.timerHeap.called popped).map s.registry.conn, rfl, ⟨?_, ?_, fun conn => ?_,
      fun fd conn found member => ?_, fun fd apart => ?_, fun fd conn timer found stays own => ?_, rfl, rfl, rfl⟩⟩
    · change s.registry.closed ++ (s.registry.timerHeap.called popped).map s.registry.fds = _
      rw [List.map_map, List.map_congr_left leadsTo]
      rfl
    · exact nodup.map_on fun fd here fd' there same =>
        attended.linked.distinct fd fd' _ (leadsTo fd here) (same ▸ leadsTo fd' there)
    · rw [exactly]
      refine exists_congr fun fd => and_congr_right fun found => ?_
      rw [called, and_iff_right (Option.isSome_of_eq_some found)]
    · obtain ⟨fd', found', among⟩ := (exactly conn).mp member
      obtain rfl := attended.linked.distinct fd fd' conn found found'
      exact if_pos among
    · have stays : fd ∉ s.registry.timerHeap.called popped := fun member =>
        apart _ (List.mem_map_of_mem member) (leadsTo fd member)
      exact ⟨if_neg stays, if_neg stays⟩
    · obtain ⟨own', leads⟩ := attended.linked.leads fd conn found
      obtain rfl := Option.some.inj (leads.found.symm.trans own)
      have kept : own' ∉ popped := fun member => stays ((exactly conn).mpr ⟨fd, found,
        (Registry.mem_called_iff attended.linked attended.exact_ pops fd).mpr ⟨conn, own', found, leads, member⟩⟩)
      exact ⟨(pops.holds.members own').mpr ⟨leads.member, kept⟩, pops.holds.timers own'⟩
  · cases done

end ServerState

/-- Idle eviction is exact. -/
theorem evicts_of_reachable {s : ServerState} (reachable : serverSystem.Reachable ServerState.Punctual s)
    (done : s.act (.timer now) = some result) : ∃ s' idle, result = .ok s' ∧ s.Evicts now idle s' := by
  obtain ⟨attended, timed⟩ := ServerState.reachable_timed reachable
  exact attended.evicts timed done

/-- A signal sets off a tick at time 15, when the first client has been idle since time 0. -/
theorem firstClient_evicted : ∃ s s' idle, serverSystem.Reachable ServerState.Punctual s ∧
    s.registry.fds 10 = some 0 ∧ s.act (.timer 15) = some (.ok s') ∧ s.Evicts 15 idle s' := by
  obtain ⟨s, reachable, main, head, isOpen, listenFd, pipeFd, clock⟩ := firstClient_reachable
  have signal : s.act (.event ⟨-1, [], [], [.alarm], 0⟩) =
      some (.ok ({ s with events := [] }.readSignals ⟨-1, [], [], [.alarm], 0⟩)) := by
    rw [ServerState.act_event main head, ServerState.dispatch, listenFd, pipeFd]
    rfl
  have signalled := reachable.step (.event ⟨-1, [], [], [.alarm], 0⟩ (.inl (by decide)) clock.le) signal
  have timeout : ({ s with events := [] }.readSignals ⟨-1, [], [], [.alarm], 0⟩).timeout = true := Bool.or_true _
  have ticks := ServerState.act_timer
    ({ s with events := [] }.readSignals ⟨-1, [], [], [.alarm], 0⟩) main rfl timeout 15
  obtain ⟨s', idle, done, evicts⟩ := evicts_of_reachable signalled ticks
  exact ⟨_, s', idle, signalled, isOpen, done ▸ ticks, evicts⟩

end WSlyh.Server
