import WSlyh.Http.Response
import WSlyh.Lib.Transition

/-! The file mappings of one connection object, as it serves one connection after the other. -/

namespace WSlyh.Http

open Libc Lib

/-- The mappings that are made or given up, by address and length. -/
abbrev Mappings : Type := List (FileAddr × Nat)

def Effect.unmapped : Effect → Mappings
  | .munmap addr len => [(addr, len)]
  | _ => []

def Effect.removes : Effect → Bool
  | .removeFd _ => true
  | _ => false

/-- The `munmap` calls among the effects. -/
def unmappedBy (effects : List Effect) : Mappings := (effects.map Effect.unmapped).flatten

/-- The mapping that `m_pFileAddr` and `m_sFileStat` stand for. -/
def CHttp.live (conn : CHttp) : Mappings :=
  if conn.fileAddr = .null then [] else [(conn.fileAddr, conn.fileStat.stSize)]

/-- The mapping that `ParseWrite` makes. -/
def mappedBy (status : HttpRequestDecodeState) (answer : FileAnswer) : Mappings :=
  match replyTo status answer with
  | .file stat => [(answer.mmap stat.stSize, stat.stSize)]
  | .error .. => []

/-- The mapping that `HttpParse` makes. -/
def CHttp.maps (conn : CHttp) (answer : FileAnswer) : Mappings :=
  match conn.parseRead answer.behind with
  | .ok (_, status) => if status == .opened then [] else mappedBy status answer
  | .error _ => []

/-- A connection object, whether it serves an open connection, whether an `HttpParse` has mapped a file for
which no `Write` has returned false since, and the mappings made and given up so far. -/
structure MappingRun where
  conn : CHttp
  isOpen : Bool
  underWay : Bool
  made : Mappings
  unmapped : Mappings

/-- `close` is `CallBackFunc`, which does not touch the object. -/
inductive ConnStep
  | init (sockfd triggerMode : Int)
  | read (results : List RecvResult)
  | httpParse (answer : FileAnswer)
  | write (results : List WritevResult)
  | close

namespace MappingRun

def start (conn : CHttp) : MappingRun := ⟨conn, false, false, [], []⟩

/-- The object is reused once its connection is closed. A call that has not returned makes no
step. -/
def act (run : MappingRun) : ConnStep → Option (Except StringFailure MappingRun)
  | .init sockfd triggerMode =>
    if run.isOpen then none else some (.ok { run with conn := (run.conn.init sockfd triggerMode).1, isOpen := true })
  | .read results =>
    match run.conn.read results with
    | (conn, some _) => some (.ok { run with conn })
    | (_, none) => none
  | .httpParse answer =>
    match run.conn.httpParseTask answer with
    | .error exception => some (.error exception)
    | .ok (conn, effects) => some (.ok {
        conn
        isOpen := run.isOpen && !effects.any Effect.removes
        underWay := run.underWay || !(run.conn.maps answer).isEmpty
        made := run.made ++ run.conn.maps answer
        unmapped := run.unmapped ++ unmappedBy effects })
  | .write results =>
    let outcome := run.conn.write results
    match outcome.ret with
    | none => none
    | some ret => some (.ok { run with
        conn := outcome.conn
        underWay := run.underWay && ret
        unmapped := run.unmapped ++ unmappedBy outcome.effects })
  | .close => if run.isOpen then some (.ok { run with isOpen := false }) else none

/-- Every mapping is given up once, with its own address and length, unless `m_pFileAddr` leads to
it, which it does not once the connection is closed. -/
structure Balanced (run : MappingRun) : Prop where
  once : run.made = run.unmapped ++ run.conn.live
  closed : run.isOpen = false → run.conn.fileAddr = .null

/-- `mmap` succeeds. -/
def Maps (run : MappingRun) : ConnStep → Prop
  | .httpParse answer => ∀ mapping ∈ run.conn.maps answer, ∃ number, mapping.1 = .mapped number
  | _ => True

/-- Between the `HttpParse` that maps a file and the `Write` that ends its response there is neither a close
nor another `HttpParse`, and none maps a file for a connection that is closed. -/
def InOrder (run : MappingRun) : ConnStep → Prop
  | .close => run.underWay = false
  | .httpParse answer => run.underWay = false ∧ (run.conn.maps answer ≠ [] → run.isOpen = true)
  | _ => True

end MappingRun

/-- The runs of one object whose `m_pFileAddr` is null at the start. -/
def mappingSystem : System MappingRun ConnStep where
  init run := ∃ conn : CHttp, conn.fileAddr = .null ∧ run = .start conn
  step run step run' := run.act step = some (.ok run')

theorem unmappedBy_append (front back : List Effect) :
    unmappedBy (front ++ back) = unmappedBy front ++ unmappedBy back := by
  rw [unmappedBy, List.map_append, List.flatten_append]
  rfl

namespace CHttp

variable {conn conn' : CHttp}

theorem live_congr (addr : conn'.fileAddr = conn.fileAddr) (stat : conn'.fileStat = conn.fileStat) :
    conn'.live = conn.live := by
  rw [live, live, addr, stat]

theorem live_null (null : conn.fileAddr = .null) : conn.live = [] := if_pos null

theorem null_of_live (none_ : conn.live = []) : conn.fileAddr = .null := by
  unfold live at none_
  split at none_
  · assumption
  · cases none_

theorem live_unmmap (conn : CHttp) : conn.live = unmappedBy conn.unmmap.2 ∧ conn.unmmap.1.fileAddr = .null := by
  unfold unmmap
  split
  · rename_i mapped
    exact ⟨if_neg (by simpa using mapped), rfl⟩
  · rename_i null
    have null : conn.fileAddr = .null := by simpa using null
    exact ⟨live_null null, null⟩

theorem read_frame (conn : CHttp) (results : List RecvResult) :
    ∃ readData readIdx, (conn.read results).1 = { conn with readData, readIdx } := by
  have loop (conn : CHttp) : ∃ readData readIdx, (conn.readLoop results).1 = { conn with readData, readIdx } := by
    induction results generalizing conn with
    | nil => exact ⟨_, _, rfl⟩
    | cons result results ih =>
      rw [readLoop]
      split
      · exact ⟨_, _, rfl⟩
      · exact ⟨_, _, rfl⟩
      · exact ⟨_, _, rfl⟩
      · rename_i bytes _ _
        obtain ⟨readData, readIdx, later⟩ := ih (conn.receive bytes)
        exact ⟨readData, readIdx, later⟩
  unfold read
  split
  · exact ⟨_, _, rfl⟩
  · split
    · exact loop conn
    · split
      · exact ⟨_, _, rfl⟩
      · split <;> exact ⟨_, _, rfl⟩

theorem live_advance (conn : CHttp) : conn.advance.live = conn.live := by
  unfold advance
  split <;> rfl

/-- What `unmmap` gives up, after a `writev` and with the watch that may follow. -/
theorem unmappedBy_ended (conn : CHttp) (bytes : List Pointer) (event : EpollEvent) :
    unmappedBy (.send bytes :: conn.unmmap.2) = conn.live ∧
      unmappedBy (.send bytes :: conn.unmmap.2 ++ [conn.unmmap.1.modFd event]) = conn.live := by
  have given := (conn.live_unmmap).1
  refine ⟨given.symm, ?_⟩
  rw [unmappedBy_append, given]
  exact List.append_nil _

/-- `Write` gives up what it has, or keeps it. -/
theorem writeLoop_live (conn : CHttp) (results : List WritevResult) :
    conn.live = unmappedBy (conn.writeLoop results).effects ++ (conn.writeLoop results).conn.live := by
  induction results generalizing conn with
  | nil => rfl
  | cons result results ih =>
    rw [writeLoop]
    dsimp only
    split
    · split
      · rfl
      · rw [(unmappedBy_ended conn _ .epollIn).1, live_null conn.live_unmmap.2, List.append_nil]
    · split
      · have null := (conn.count (int32 result.ret)).live_unmmap.2
        split
        · rw [(unmappedBy_ended (conn.count (int32 result.ret)) _ .epollIn).2, @live_null (reset _) null,
            List.append_nil]
          rfl
        · rw [(unmappedBy_ended (conn.count (int32 result.ret)) _ .epollIn).2, live_null null, List.append_nil]
          rfl
      · have later := ih (conn.count (int32 result.ret)).advance
        rw [live_advance] at later
        exact later

/-- A `Write` that returns false has given up the mapping. -/
theorem writeLoop_failed (conn : CHttp) (failed : (conn.writeLoop results).ret = some false) :
    (conn.writeLoop results).conn.fileAddr = .null := by
  induction results generalizing conn with
  | nil => cases failed
  | cons result results ih =>
    rw [writeLoop] at failed ⊢
    dsimp only at failed ⊢
    split
    · rename_i negative
      rw [if_pos negative] at failed
      split
      · rename_i again
        rw [if_pos again] at failed
        cases failed
      · exact conn.live_unmmap.2
    · rename_i counted
      rw [if_neg counted] at failed
      split
      · split <;> exact (conn.count (int32 result.ret)).live_unmmap.2
      · rename_i more
        rw [if_neg more] at failed
        exact ih _ failed

theorem write_failed (conn : CHttp) (failed : (conn.write results).ret = some false) :
    (conn.write results).conn.fileAddr = .null := by
  unfold write at failed ⊢
  split
  · rename_i nothing
    rw [if_pos nothing] at failed
    cases failed
  · rename_i something
    rw [if_neg something] at failed
    exact writeLoop_failed conn failed

theorem write_live (conn : CHttp) (results : List WritevResult) :
    conn.live = unmappedBy (conn.write results).effects ++ (conn.write results).conn.live := by
  unfold write
  split
  · rfl
  · exact writeLoop_live conn results

end CHttp

theorem of_replyTo_file (reply : replyTo status answer = .file stat) :
    status = .complete ∧ answer.stat = some stat := by
  unfold replyTo at reply
  split_ifs at reply with invalid complete
  refine ⟨by simpa using complete, ?_⟩
  cases found : answer.stat with
  | none => simp [found] at reply
  | some stat' =>
    simp only [found] at reply
    split_ifs at reply with readable dir
    rw [Reply.file.inj reply]

namespace CHttp

variable {conn conn' : CHttp}

/-- `ParseWrite` adds the mapping it makes, if none is live when `stat` succeeds. -/
theorem parseWrite_live (clean : status = .complete → answer.stat ≠ none → conn.fileAddr = .null)
    (maps : ∀ mapping ∈ mappedBy status answer, ∃ number, mapping.1 = .mapped number) :
    (conn.parseWrite status answer).1.live = conn.live ++ mappedBy status answer := by
  unfold mappedBy at maps ⊢
  cases reply : replyTo status answer with
  | error code title form =>
    obtain ⟨fileStat, stat, written⟩ := parseWrite_of_error conn reply
    obtain ⟨_, _, frame⟩ := ({ conn with fileStat } : CHttp).addError_outputs code title form
    rw [written, frame, List.append_nil]
    rcases stat with same | ⟨complete, found⟩
    · exact live_congr rfl same
    · have null := clean complete (by rw [found]; exact Option.some_ne_none _)
      rw [live_null null, live_null]
      exact null
  | file stat =>
    obtain ⟨complete, found⟩ := of_replyTo_file reply
    have null := clean complete (by rw [found]; exact Option.some_ne_none _)
    rw [reply] at maps
    obtain ⟨number, mapped⟩ := maps _ (List.mem_singleton_self _)
    obtain ⟨_, _, frame⟩ := addFileHeader_outputs
      { conn with fileStat := stat, fileAddr := answer.mmap stat.stSize } stat.stSize
    rw [parseWrite_of_file reply, offerFile, frame, live_null null]
    change (if answer.mmap stat.stSize = .null then [] else [(answer.mmap stat.stSize, stat.stSize)]) = _
    rw [if_neg (by rw [show answer.mmap stat.stSize = .mapped number from mapped]; exact FileAddr.noConfusion)]
    rfl

/-- `ParseWrite` fails with an error response only. -/
theorem mappedBy_failed (failed : (conn.parseWrite status answer).2 = false) : mappedBy status answer = [] := by
  unfold mappedBy
  cases reply : replyTo status answer with
  | error => rfl
  | file stat =>
    rw [parseWrite_of_file reply] at failed
    cases failed

theorem closeHttp_live (conn : CHttp) : conn.closeHttp.1.live = conn.live ∧ unmappedBy conn.closeHttp.2 = [] := by
  unfold closeHttp
  split <;> exact ⟨rfl, rfl⟩

/-- How `HttpParse` ends: with the request still open, with an answer or by closing. -/
theorem httpParseTask_cases (done : conn.httpParseTask answer = .ok (conn', effects)) :
    ∃ read status, conn.parseRead answer.behind = .ok (read, status) ∧
      read.live = conn.live ∧ read.fileAddr = conn.fileAddr ∧
      (status = .opened ∧ conn' = read ∧ effects = [read.modFd .epollIn] ∨
        status ≠ .opened ∧ (read.parseWrite status answer).2 = true ∧ conn' = (read.parseWrite status answer).1 ∧
          effects = [conn'.modFd .epollOut] ∨
        status ≠ .opened ∧ (read.parseWrite status answer).2 = false ∧
          (conn', effects) = (read.parseWrite status answer).1.closeHttp) := by
  rw [httpParseTask] at done
  cases parsed : conn.parseRead answer.behind with
  | error exception =>
    rw [parsed] at done
    cases done
  | ok result =>
    obtain ⟨read, status⟩ := result
    obtain ⟨_, _, frame⟩ := parseRead_frame parsed
    refine ⟨read, status, rfl, live_congr (by rw [frame]) (by rw [frame]), by rw [frame], ?_⟩
    rw [parsed] at done
    simp only [bind, Except.bind] at done
    split at done
    · rename_i opened
      cases done
      exact .inl ⟨by simpa using opened, rfl, rfl⟩
    · rename_i closed
      have status : status ≠ .opened := by simpa using closed
      split at done
      · rename_i failed
        exact .inr (.inr ⟨status, by simpa using failed, (Except.ok.inj done).symm⟩)
      · rename_i answered
        cases done
        exact .inr (.inl ⟨status, by simpa using answered, rfl, rfl⟩)

end CHttp

namespace MappingRun

variable {run run' : MappingRun}

/-- What the order of the steps keeps. -/
structure Keeps (run : MappingRun) : Prop where
  once : run.made = run.unmapped ++ run.conn.live
  idle : run.underWay = false → run.conn.fileAddr = .null
  closed : run.isOpen = false → run.underWay = false

theorem Keeps.balanced (keeps : run.Keeps) : run.Balanced :=
  ⟨keeps.once, fun shut => keeps.idle (keeps.closed shut)⟩

/-- Where no mapping is live, what a worker does is to add the one it makes. It closes the connection only if
it makes none. -/
theorem parsed (null : run.conn.fileAddr = .null) (maps : run.Maps (.httpParse answer))
    (done : run.conn.httpParseTask answer = .ok (conn', effects)) :
    conn'.live = run.conn.maps answer ∧ unmappedBy effects = [] ∧
      (effects.any Effect.removes = true → run.conn.maps answer = []) := by
  obtain ⟨read, status, readDone, live, addr, ending⟩ := CHttp.httpParseTask_cases done
  have made : run.conn.maps answer = if status == .opened then [] else mappedBy status answer := by
    rw [CHttp.maps, readDone]
  have nothing : read.live = [] := live.trans (CHttp.live_null null)
  rcases ending with ⟨rfl, rfl, rfl⟩ | ⟨notOpened, answered, rfl, rfl⟩ | ⟨notOpened, failed, closes⟩
  · have none_ : run.conn.maps answer = [] := made.trans (if_pos rfl)
    exact ⟨by rw [none_, nothing], rfl, nofun⟩
  · have new : run.conn.maps answer = mappedBy status answer := by
      rw [made, if_neg (by simpa using notOpened)]
    rw [MappingRun.Maps, new] at maps
    have after := CHttp.parseWrite_live (fun _ _ => addr.trans null) maps
    rw [nothing, List.nil_append] at after
    exact ⟨by rw [new, after], rfl, nofun⟩
  · have none_ := CHttp.mappedBy_failed failed
    have nothing' : run.conn.maps answer = [] := by
      rw [made, none_, ite_self]
    obtain ⟨rfl, rfl⟩ := Prod.ext_iff.mp closes
    obtain ⟨kept, quiet⟩ := (read.parseWrite status answer).1.closeHttp_live
    have after := CHttp.parseWrite_live (fun _ _ => addr.trans null) (by rw [none_]; exact nofun)
    rw [none_, List.append_nil, nothing] at after
    exact ⟨by rw [nothing', kept, after], quiet, fun _ => nothing'⟩

theorem Keeps.next (keeps : run.Keeps) (inOrder : run.InOrder step) (maps : run.Maps step)
    (done : run.act step = some (.ok run')) : run'.Keeps := by
  have once := keeps.once
  cases step with
  | init sockfd triggerMode =>
    simp only [act] at done
    split at done
    · cases done
    · cases done
      exact ⟨once, keeps.idle, nofun⟩
  | read results =>
    obtain ⟨_, _, frame⟩ := run.conn.read_frame results
    simp only [act] at done
    split at done
    · rename_i conn _ returned
      cases done
      rw [returned] at frame
      dsimp only at frame
      have live : conn.live = run.conn.live := CHttp.live_congr (by rw [frame]) (by rw [frame])
      exact ⟨once.trans (congrArg _ live.symm), fun idle => (congrArg _ frame).trans (keeps.idle idle), keeps.closed⟩
    · cases done
  | httpParse answer =>
    obtain ⟨idle, onlyOpen⟩ := inOrder
    simp only [act] at done
    split at done
    · cases done
    · rename_i conn' effects parsedTask
      cases done
      have null := keeps.idle idle
      obtain ⟨after, quiet, removed⟩ := parsed null maps parsedTask
      refine ⟨?_, fun still => CHttp.null_of_live ?_, fun shut => ?_⟩
      · change run.made ++ run.conn.maps answer = run.unmapped ++ unmappedBy effects ++ conn'.live
        rw [once, quiet, after, CHttp.live_null null, List.append_nil]
      · change (run.underWay || !(run.conn.maps answer).isEmpty) = false at still
        rw [idle, Bool.false_or, Bool.not_eq_false', List.isEmpty_iff] at still
        rw [after, still]
      · change (run.isOpen && !effects.any Effect.removes) = false at shut
        change (run.underWay || !(run.conn.maps answer).isEmpty) = false
        rw [idle, Bool.false_or, Bool.not_eq_false', List.isEmpty_iff]
        by_contra some_
        rw [onlyOpen some_, Bool.true_and, Bool.not_eq_false'] at shut
        exact some_ (removed shut)
  | write results =>
    have live := run.conn.write_live results
    simp only [act] at done
    split at done
    · cases done
    · rename_i ret returned
      cases done
      refine ⟨?_, fun still => ?_, fun shut => ?_⟩
      · change run.made = run.unmapped ++ unmappedBy (run.conn.write results).effects ++
          (run.conn.write results).conn.live
        rw [once, live, List.append_assoc]
      · change (run.underWay && ret) = false at still
        rcases Bool.and_eq_false_iff.mp still with idle | rfl
        · rw [CHttp.live_null (keeps.idle idle)] at live
          exact CHttp.null_of_live (List.append_eq_nil_iff.mp live.symm).2
        · exact run.conn.write_failed returned
      · change (run.underWay && ret) = false
        rw [keeps.closed shut, Bool.false_and]
  | close =>
    simp only [act] at done
    split at done
    · cases done
      exact ⟨once, keeps.idle, fun _ => inOrder⟩
    · cases done

end MappingRun

/-- As long as no connection is closed between the `HttpParse` that maps its file and the end of the
response, and no `HttpParse` comes at the wrong time, the mappings are balanced. -/
theorem balanced_of_reachable {run : MappingRun}
    (reachable : mappingSystem.Reachable (fun run step => run.Maps step ∧ run.InOrder step) run) : run.Balanced := by
  refine (reachable.invariant MappingRun.Keeps ?_ fun _ _ _ keeps may done => keeps.next may.2 may.1 done).balanced
  rintro _ ⟨conn, null, rfl⟩
  exact ⟨(CHttp.live_null null).symm, fun _ => null, fun _ => rfl⟩

/-- A check of the order and of what `mmap` returns. -/
def MappingRun.inOrder? (run : MappingRun) : ConnStep → Bool
  | .close => !run.underWay
  | .httpParse answer => run.isOpen && !run.underWay && (run.conn.maps answer).all fun mapping =>
      match mapping.1 with
      | .mapped _ => true
      | _ => false
  | _ => true

theorem MappingRun.inOrder?_sound {run : MappingRun} (may : run.inOrder? step = true) :
    run.Maps step ∧ run.InOrder step := by
  cases step with
  | close => exact ⟨trivial, (Bool.not_eq_true' _).mp may⟩
  | httpParse answer =>
    simp only [inOrder?, Bool.and_eq_true, Bool.not_eq_true', List.all_eq_true] at may
    obtain ⟨⟨isOpen, idle⟩, mapped⟩ := may
    refine ⟨fun mapping member => ?_, idle, fun _ => isOpen⟩
    have number := mapped mapping member
    split at number
    · rename_i found
      exact ⟨_, found⟩
    · cases number
  | init | read | write => exact ⟨trivial, trivial⟩

/-- A request for the file of 100 bytes, and the mapping for it. -/
def hundredBytesAsked : List ConnStep :=
  [.init 5 0, .read [.received (ascii "GET / HTTP/1.1\r\n\r\n")], .httpParse hundredBytes]

/-- The whole response is sent, and then the connection is closed. -/
theorem hundredBytes_balanced :
    ∃ run : MappingRun, run.unmapped = [(.mapped 0, 100)] ∧ run.isOpen = false ∧ run.Balanced := by
  have checked : ((System.Reachable.follow MappingRun.act MappingRun.inOrder? (.start default)
      (hundredBytesAsked ++ [.write [⟨181, .other⟩], .close])).any
      fun run => run.unmapped == [(.mapped 0, 100)] && !run.isOpen) = true := by decide +kernel
  obtain ⟨run, followed, state⟩ := (Option.any_eq_true ..).mp checked
  rw [Bool.and_eq_true, beq_iff_eq, Bool.not_eq_true'] at state
  exact ⟨run, state.1, state.2, balanced_of_reachable (System.Reachable.followed (.init ⟨default, rfl, rfl⟩)
    (fun _ _ _ => MappingRun.inOrder?_sound) (fun _ _ _ => id) followed)⟩

/-- The client hangs up before its response is sent. -/
theorem hangUp_not_balanced : ∃ run, mappingSystem.Reachable MappingRun.Maps run ∧ ¬ run.Balanced := by
  have checked : ((System.Reachable.follow MappingRun.act
      (fun run step => run.inOrder? step || match step with | .close => true | _ => false) (.start default)
      (hundredBytesAsked ++ [.close])).any fun run => run.conn.fileAddr == .mapped 0 && !run.isOpen) = true := by
    decide +kernel
  obtain ⟨run, followed, state⟩ := (Option.any_eq_true ..).mp checked
  rw [Bool.and_eq_true, beq_iff_eq, Bool.not_eq_true'] at state
  refine ⟨run, System.Reachable.followed (.init ⟨default, rfl, rfl⟩) (fun run step _ may => ?_)
    (fun _ _ _ => id) followed, fun balanced => ?_⟩
  · rcases Bool.or_eq_true_iff.mp may with inOrder | close
    · exact (MappingRun.inOrder?_sound inOrder).1
    · cases step with
      | close => trivial
      | init | read | httpParse | write => cases close
  · have null := balanced.closed state.2
    rw [state.1] at null
    cases null

end WSlyh.Http
