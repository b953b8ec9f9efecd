import WSlyh.Http.Assembly
import WSlyh.Http.PartialWrite
import WSlyh.Http.Reading

/-! What goes over one connection, from its `Init` to its end: the bytes that come in, the answers
that are decided on, and the bytes that go out. -/

namespace WSlyh.Http

open Libc Lib

/-- What `writev` may return for vectors that are not empty: an error, or the number of bytes it took. -/
def WritevResult.Real (result : WritevResult) (conn : CHttp) : Prop :=
  result.ret = -1 ∨ 1 ≤ result.ret ∧ result.ret ≤ conn.iv0.len + conn.iv1.len

instance (result : WritevResult) (conn : CHttp) : Decidable (result.Real conn) := inferInstanceAs (Decidable (_ ∨ _))

/-- Each result is one that `Write` asks for, and one that `writev` may return there. -/
structure CHttp.Asks (conn : CHttp) (results : List WritevResult) : Prop where
  asked : ∀ i < results.length, (conn.write (results.take i)).ret = none
  real : ∀ i (inside : i < results.length), (results[i]).Real (conn.write (results.take i)).conn

/-- One connection with its history: the bytes received, what `ParseWrite` was called with, the sizes
of the writes, and the bytes they took, by their addresses. -/
structure Session where
  run : AssemblyRun
  heard : Bytes
  answers : List (HttpRequestDecodeState × FileAnswer)
  counts : List Nat
  sent : List Pointer

namespace Session

def start (conn : CHttp) (sockfd triggerMode : Int) : Session where
  run := .start conn sockfd triggerMode
  heard := []
  answers := []
  counts := []
  sent := []

/-- What a step adds to the history. -/
def noted (session : Session) : ConnStep → Session
  | .read results =>
    { session with
      heard := session.heard ++ (session.run.conn.read results).1.input.drop session.run.conn.readIdx }
  | .httpParse answer =>
    match session.run.conn.parseRead answer.behind with
    | .ok (_, status) =>
      if status == .opened then session else { session with answers := session.answers ++ [(status, answer)] }
    | .error _ => session
  | .write results =>
    { session with
      counts := session.counts ++ writeCounts results
      sent := session.sent ++ sentBytes (session.run.conn.write results).effects }
  | _ => session

def act (session : Session) (step : ConnStep) : Option (Except StringFailure Session) :=
  (session.run.act step).map (.map fun run => { session.noted step with run })

/-- The first two writes do not both end inside the head, which is what is written in the buffer. -/
def PastHead (session : Session) (counts : List Nat) : Prop :=
  ∀ first second rest, session.counts ++ counts = first :: second :: rest → session.run.conn.writeIdx ≤ first + second

/-- The files are small enough for an `int`, `writev` returns what it may return, and it does not cut
the head twice. -/
def Fair (session : Session) : ConnStep → Prop
  | .httpParse answer => ∀ stat, answer.stat = some stat → (fileHeader false stat.stSize).length + stat.stSize < 2 ^ 31
  | .write results => session.run.conn.Asks results ∧ session.PastHead (writeCounts results)
  | _ => True

end Session

def sessionSystem : System Session ConnStep where
  init session := ∃ conn sockfd triggerMode, session = .start conn sockfd triggerMode
  step session step session' := session.act step = some (.ok session')

section Write

variable {response : FileResponse} {conn : CHttp} {s t : Nat}

@[simp] theorem armedBy_send (bytes : List Pointer) (effects : List Effect) :
    armedBy (.send bytes :: effects) = armedBy effects := by
  unfold armedBy
  rw [List.reverse_cons, List.findSome?_append]
  cases effects.reverse.findSome? Effect.arms <;> rfl

theorem CHttp.armedBy_unmmap (conn : CHttp) : armedBy conn.unmmap.2 = none := by
  unfold unmmap
  split <;> rfl

theorem CHttp.unmmap_written (conn : CHttp) :
    conn.unmmap.1.writeData = conn.writeData ∧ conn.unmmap.1.writeIdx = conn.writeIdx := by
  unfold unmmap
  split <;> exact ⟨rfl, rfl⟩

theorem CHttp.Asks.tail {next : CHttp} {effects : List Effect} (asks : conn.Asks (result :: results))
    (onward : ∀ results, conn.write (result :: results) =
      { next.write results with effects := effects ++ (next.write results).effects }) : next.Asks results := by
  refine ⟨?_, ?_⟩
  · intro i inside
    have asked := asks.asked (i + 1) (by simpa using inside)
    rw [List.take_succ_cons, onward] at asked
    exact asked
  · intro i inside
    have real := asks.real (i + 1) (by simpa using inside)
    rw [List.take_succ_cons, onward] at real
    simpa using real

/-- `Write` asks for nothing more once it returns. -/
theorem CHttp.Asks.last (asks : conn.Asks (result :: results)) (returned : (conn.write [result]).ret ≠ none) :
    results = [] := by
  cases results with
  | nil => rfl
  | cons second results => exact absurd (asks.asked 1 (by simp)) returned

namespace FileResponse

/-- From the `s`-th byte of the response on, a `Write` sends the bytes up to the `t`-th. It arms the descriptor
for output as long as bytes are left, and for input when it is done. -/
structure Moved (response : FileResponse) (s : Nat) (outcome : WriteRun) (t : Nat) : Prop where
  sent : sentBytes outcome.effects = (response.pointers.drop s).take (t - s)
  from_ : s ≤ t
  bound : t ≤ response.total
  writeData : outcome.conn.writeData = response.writeData
  writeIdx : outcome.conn.writeIdx = response.header
  watched : armedBy outcome.effects = some .epollOut → response.Aligned outcome.conn t
  going : outcome.ret = some true → armedBy outcome.effects = some .epollOut
  done : armedBy outcome.effects = some .epollIn → outcome.ret = some false ∧ t = response.total

theorem Aligned.moved_none (aligned : response.Aligned conn s) : response.Moved s (conn.write []) s := by
  have nothing : conn.write [] = ⟨conn, none, [], []⟩ := CHttp.writeCalls_nil aligned.carried.waiting 0
  rw [nothing]
  refine ⟨?_, le_rfl, aligned.carried.left.le, aligned.carried.writeData, aligned.carried.writeIdx,
    nofun, nofun, nofun⟩
  rw [Nat.sub_self, List.take_zero]
  rfl

/-- An error sends nothing; only after `EAGAIN` does `Write` come back. -/
theorem Aligned.moved_error (aligned : response.Aligned conn s) (failed : result.ret = -1) :
    (conn.write [result]).ret ≠ none ∧ response.Moved s (conn.write [result]) s := by
  obtain ⟨ret, errno⟩ := result
  simp only at failed
  subst failed
  have negative : int32 (-1) < 0 := by decide
  rw [CHttp.write_waiting aligned.carried.waiting, CHttp.writeLoop]
  dsimp only
  rw [if_pos negative]
  have none_ : (response.pointers.drop s).take (s - s) = [] := by rw [Nat.sub_self, List.take_zero]
  cases errno with
  | eagain =>
    refine ⟨Option.some_ne_none _, ⟨?_, le_rfl, aligned.carried.left.le, aligned.carried.writeData,
      aligned.carried.writeIdx, fun _ => aligned, fun _ => rfl, fun armed => by cases armed⟩⟩
    rw [none_]
    rfl
  | other =>
    obtain ⟨writeData, writeIdx⟩ := conn.unmmap_written
    have silent : armedBy (.send (conn.offered.take (-1 : Int).toNat) :: conn.unmmap.2) = none := by
      rw [armedBy_send, CHttp.armedBy_unmmap]
    refine ⟨Option.some_ne_none _, ⟨?_, le_rfl, aligned.carried.left.le, writeData.trans aligned.carried.writeData,
      writeIdx.trans aligned.carried.writeIdx, ?_, (fun returned => by cases returned), ?_⟩⟩
    · rw [none_]
      exact (sentBytes_send _ _).trans (by rw [CHttp.sentBytes_unmmap]; rfl)
    · intro armed
      cases silent.symm.trans armed
    · intro armed
      cases silent.symm.trans armed

/-- The write that takes the last byte ends the connection. -/
theorem Aligned.moved_last {count : Nat} (aligned : response.Aligned conn s) (all : s + count = response.total)
    (errno : Errno) :
    (conn.write [⟨count, errno⟩]).ret ≠ none ∧ response.Moved s (conn.write [⟨count, errno⟩]) response.total := by
  have total := aligned.carried.total
  have waiting := aligned.carried.waiting
  have closes := aligned.carried.linger
  have dataLen := aligned.carried.count_dataLen count (by omega)
  have finished : (conn.count count).dataLen ≤ 0 := by omega
  obtain ⟨after, ret, sent⟩ := CHttp.writeCalls_last [] waiting (by omega) finished closes errno 0
  obtain ⟨writeData, writeIdx⟩ := (conn.count count).unmmap_written
  have armed : armedBy (conn.write [⟨count, errno⟩]).effects = some .epollIn := by
    have narrow : int32 (count : Int) = count := int32_eq (by omega) (by omega)
    have lingers : (conn.count count).unmmap.1.linger = false := by
      unfold CHttp.unmmap
      split <;> exact closes
    rw [CHttp.write_waiting waiting, CHttp.writeLoop]
    simp only [narrow]
    rw [if_neg (by omega), if_pos finished, lingers]
    simp only [Bool.false_eq_true, if_false, List.cons_append, armedBy_send]
    unfold armedBy
    rw [List.reverse_append]
    rfl
  simp only [CHttp.writeCalls] at after ret sent
  refine ⟨by rw [ret]; exact Option.some_ne_none _, ⟨?_, by omega, le_rfl, ?_, ?_, ?_, ?_, fun _ => ⟨ret, rfl⟩⟩⟩
  · rw [sent, aligned.offered]
    congr 1
    omega
  · rw [after]
    exact writeData.trans aligned.carried.writeData
  · rw [after]
    exact writeIdx.trans aligned.carried.writeIdx
  · intro other
    cases armed.symm.trans other
  · intro other
    cases ret.symm.trans other

theorem Moved.after_short {count : Nat} {outcome : WriteRun} (moved : response.Moved (s + count) outcome t)
    (aligned : response.Aligned conn s) :
    response.Moved s { outcome with effects := .send (conn.offered.take count) :: outcome.effects } t := by
  refine ⟨?_, by have := moved.from_; omega, moved.bound, moved.writeData, moved.writeIdx, ?_, ?_, ?_⟩
  · have split : t - s = count + (t - (s + count)) := by
      have := moved.from_
      omega
    rw [sentBytes_send, moved.sent, aligned.offered, split, List.take_add, List.drop_drop]
  · rw [armedBy_send]
    exact moved.watched
  · rw [armedBy_send]
    exact moved.going
  · rw [armedBy_send]
    exact moved.done

/-- The write after a write ends behind the head unless the first two of them do not. -/
theorem single_of_past {header count : Nat} {counts later : List Nat} (sum : counts.sum = s)
    (past : ∀ first second rest, counts ++ count :: later = first :: second :: rest → header ≤ first + second) :
    s = 0 ∨ header ≤ s + count := by
  match counts with
  | [] => exact .inl sum.symm
  | [first] =>
    have here := past first count later rfl
    rw [List.sum_singleton] at sum
    exact .inr (by omega)
  | first :: second :: rest =>
    have here := past first second (rest ++ count :: later) rfl
    rw [List.sum_cons, List.sum_cons] at sum
    exact .inr (by omega)

/-- One call of `Write` on a response that is partly out: by induction on the results of `writev`. -/
theorem Aligned.moved {results : List WritevResult} {counts : List Nat} (aligned : response.Aligned conn s)
    (asks : conn.Asks results) (sum : counts.sum = s)
    (past : ∀ first second rest, counts ++ writeCounts results = first :: second :: rest →
      response.header ≤ first + second) :
    response.Moved s (conn.write results) (s + (writeCounts results).sum) := by
  induction results generalizing conn s counts with
  | nil => exact aligned.moved_none
  | cons result results ih =>
    have total := aligned.carried.total
    have nothing : conn.write [] = ⟨conn, none, [], []⟩ := CHttp.writeCalls_nil aligned.carried.waiting 0
    have real := asks.real 0 (by simp)
    rw [List.take_zero, nothing] at real
    rcases real with failed | ⟨low, high⟩
    · obtain ⟨returned, moved⟩ := aligned.moved_error failed
      cases asks.last returned
      have zero : (writeCounts [result]).sum = 0 := by
        simp only [List.getElem_cons_zero] at failed
        simp [writeCounts, failed]
      rw [zero]
      exact moved
    · obtain ⟨ret, errno⟩ := result
      simp only [List.getElem_cons_zero] at low high
      obtain ⟨count, rfl⟩ := Int.eq_ofNat_of_zero_le (by omega : 0 ≤ ret)
      have offered := aligned.offered_len
      have dataLen := aligned.carried.count_dataLen count (by omega)
      rw [writeCounts_count (by omega)] at past ⊢
      rw [List.sum_cons, ← Nat.add_assoc]
      by_cases more : s + count < response.total
      · have onward (results : List WritevResult) : conn.write (⟨count, errno⟩ :: results) =
            { (conn.count count).advance.write results with
              effects := [.send (conn.offered.take count)] ++ ((conn.count count).advance.write results).effects } :=
          CHttp.writeCalls_short aligned.carried.waiting (by omega) (by omega) errno 0
        have next := aligned.advance more (single_of_past sum past)
        rw [onward]
        have counted : (counts ++ [count]).sum = s + count := by rw [List.sum_append, sum, List.sum_singleton]
        refine (ih next (asks.tail onward) counted ?_).after_short aligned
        intro first second rest same
        rw [List.append_assoc] at same
        exact past first second rest same
      · have all : s + count = response.total := by omega
        obtain ⟨returned, moved⟩ := aligned.moved_last all errno
        cases asks.last returned
        have whole : s + count + (writeCounts []).sum = response.total := by
          have empty : (writeCounts []).sum = 0 := rfl
          omega
        rw [whole]
        exact moved

end FileResponse

end Write

namespace AssemblyRun

variable {run run' : AssemblyRun}

theorem of_read (taken : run.act (.read results) = some (.ok run')) :
    run.live = true ∧ run.armed = some .epollIn ∧ ∃ conn ret, run.conn.read results = (conn, some ret) ∧
      run' = { conn, armed := none, queued := ret, live := ret } := by
  simp only [AssemblyRun.act] at taken
  split at taken
  · rename_i ready
    split at taken
    · rename_i conn ret returned
      cases taken
      exact ⟨ready.1, ready.2, conn, ret, returned, rfl⟩
    · cases taken
  · cases taken

theorem of_httpParse (taken : run.act (.httpParse answer) = some (.ok run')) :
    run.queued = true ∧ ∃ conn effects, run.conn.httpParseTask answer = .ok (conn, effects) ∧
      run' = { conn, armed := armedBy effects, queued := false, live := run.live } := by
  simp only [AssemblyRun.act] at taken
  split at taken
  · rename_i queued
    cases done : run.conn.httpParseTask answer with
    | error exception =>
      rw [done] at taken
      cases taken
    | ok result =>
      rw [done] at taken
      cases taken
      exact ⟨queued, result.1, result.2, rfl, rfl⟩
  · cases taken

theorem of_write (taken : run.act (.write results) = some (.ok run')) :
    run.live = true ∧ run.armed = some .epollOut ∧ ∃ ret, (run.conn.write results).ret = some ret ∧
      run' = { run with
        conn := (run.conn.write results).conn
        armed := armedBy (run.conn.write results).effects
        live := ret } := by
  simp only [AssemblyRun.act] at taken
  split at taken
  · rename_i ready
    obtain ⟨ret, returned, result⟩ := Option.map_eq_some_iff.mp taken
    cases result
    exact ⟨ready.1, ready.2, ret, returned, rfl⟩
  · cases taken

theorem of_close (taken : run.act .close = some (.ok run')) : run' = { run with live := false } := by
  simp only [AssemblyRun.act] at taken
  split at taken
  · cases taken
    rfl
  · cases taken

end AssemblyRun

def Reply.isFile : Reply → Bool
  | .file _ => true
  | .error .. => false

namespace Session

variable {session session' : Session} {contents : FileAddr → Bytes}

/-- How far the response with a file has come: its first bytes are out, and the descriptor is watched for
output as long as the connection lives and bytes are left. -/
structure Conveying (session : Session) (stat : FileStat) (addr : FileAddr) (contents : FileAddr → Bytes) : Prop where
  sent : (contents addr).length = stat.stSize → session.sent.map (session.run.conn.load contents) =
    ((fileHeader false stat.stSize ++ contents addr).take session.counts.sum).map some
  bound : session.counts.sum ≤ (fileHeader false stat.stSize).length + stat.stSize
  going : session.run.live = true → session.run.armed = some .epollOut ∧
    session.counts.sum < (fileHeader false stat.stSize).length + stat.stSize
  done : session.run.armed = some .epollIn → session.run.live = false ∧
    session.counts.sum = (fileHeader false stat.stSize).length + stat.stSize

/-- At most one answer carries a file, and it is the last. Every other answer is an error, of which
the client hears nothing. -/
structure Speaks (session : Session) (contents : FileAddr → Bytes) : Prop where
  once : ∀ entry ∈ session.answers.dropLast, (replyTo entry.1 entry.2).isFile = false
  silent : (∀ entry ∈ session.answers, (replyTo entry.1 entry.2).isFile = false) → session.sent = []
  file : ∀ status answer stat, (status, answer) ∈ session.answers → replyTo status answer = .file stat →
    session.Conveying stat (answer.mmap stat.stSize) contents

/-- The response that is in the buffer. -/
def response (session : Session) (stat : FileStat) (addr : FileAddr) : FileResponse :=
  ⟨session.run.conn.writeData, session.run.conn.writeIdx, addr, stat.stSize⟩

/-- No answer carries a file so far. -/
structure Quiet (session : Session) : Prop where
  dataLen : session.run.conn.dataLen = 0
  errors : ∀ entry ∈ session.answers, (replyTo entry.1 entry.2).isFile = false
  counts : session.counts = []
  sent : session.sent = []

/-- The last answer carries a file. -/
structure Answering (session : Session) (status : HttpRequestDecodeState) (answer : FileAnswer) (stat : FileStat) :
    Prop where
  last : ∃ before, session.answers = before ++ [(status, answer)] ∧
    ∀ entry ∈ before, (replyTo entry.1 entry.2).isFile = false
  reply : replyTo status answer = .file stat
  head : session.run.conn.output = fileHeader false stat.stSize
  writeIdx : session.run.conn.writeIdx = (fileHeader false stat.stSize).length
  sent : session.sent = (session.response stat (answer.mmap stat.stSize)).pointers.take session.counts.sum
  bound : session.counts.sum ≤ (session.response stat (answer.mmap stat.stSize)).total
  parsed : session.run.queued = false
  watched : session.run.armed = some .epollOut →
    (session.response stat (answer.mmap stat.stSize)).Aligned session.run.conn session.counts.sum
  going : session.run.live = true → session.run.armed = some .epollOut
  done : session.run.armed = some .epollIn →
    session.run.live = false ∧ session.counts.sum = (session.response stat (answer.mmap stat.stSize)).total

inductive Stage (session : Session) : Prop where
  | quiet (quiet : session.Quiet)
  | answering (status : HttpRequestDecodeState) (answer : FileAnswer) (stat : FileStat)
      (answering : session.Answering status answer stat)

theorem of_act (taken : session.act step = some (.ok session')) :
    ∃ run', session.run.act step = some (.ok run') ∧ session' = { session.noted step with run := run' } := by
  obtain ⟨outcome, acted, same⟩ := Option.map_eq_some_iff.mp taken
  cases outcome with
  | error exception => cases same
  | ok run' =>
    cases same
    exact ⟨run', acted, rfl⟩

/-- What `Write` sends of the response is what the history then holds. -/
theorem Answering.write (answering : session.Answering status answer stat) (fair : session.Fair (.write results))
    (taken : session.act (.write results) = some (.ok session')) : session'.Answering status answer stat := by
  obtain ⟨run', acted, rfl⟩ := of_act taken
  obtain ⟨live, armed, ret, returned, rfl⟩ := AssemblyRun.of_write acted
  obtain ⟨asks, past⟩ := fair
  have aligned := answering.watched armed
  have moved := aligned.moved asks rfl past
  have same (addr : FileAddr) : FileResponse.mk (session.run.conn.write results).conn.writeData
      (session.run.conn.write results).conn.writeIdx addr stat.stSize = session.response stat addr := by
    rw [moved.writeData, moved.writeIdx]
    rfl
  have sum : (session.counts ++ writeCounts results).sum = session.counts.sum + (writeCounts results).sum :=
    List.sum_append
  refine ⟨answering.last, answering.reply, ?_, ?_, ?_, ?_, answering.parsed, ?_, ?_, ?_⟩
  · show (session.run.conn.write results).conn.output = _
    rw [CHttp.output, moved.writeData, moved.writeIdx]
    exact answering.head
  · exact moved.writeIdx.trans answering.writeIdx
  · simp only [noted, response, same, sum]
    rw [answering.sent, moved.sent, Nat.add_sub_cancel_left, ← List.take_add]
    rfl
  · simp only [noted, response, same, sum]
    exact moved.bound
  · simp only [noted, response, same, sum]
    exact moved.watched
  · intro alive
    have alive : ret = true := alive
    rw [alive] at returned
    exact moved.going returned
  · intro closed
    obtain ⟨ended, all⟩ := moved.done closed
    simp only [noted, response, same, sum]
    rw [ended] at returned
    exact ⟨(Option.some.inj returned).symm, all⟩

theorem Answering.close (answering : session.Answering status answer stat)
    (taken : session.act .close = some (.ok session')) : session'.Answering status answer stat := by
  obtain ⟨run', acted, rfl⟩ := of_act taken
  obtain rfl := AssemblyRun.of_close acted
  exact { answering with
    going := nofun
    done := fun closed => ⟨rfl, (answering.done closed).2⟩ }

/-- Only `Write` goes on, until the connection is closed. -/
theorem Answering.next (answering : session.Answering status answer stat) (fair : session.Fair step)
    (taken : session.act step = some (.ok session')) : session'.Answering status answer stat := by
  cases step with
  | init sockfd triggerMode =>
    obtain ⟨run', acted, _⟩ := of_act taken
    cases acted
  | read results =>
    obtain ⟨run', acted, _⟩ := of_act taken
    obtain ⟨live, armed, _⟩ := AssemblyRun.of_read acted
    have closed := (answering.done armed).1
    rw [live] at closed
    cases closed
  | httpParse other =>
    obtain ⟨run', acted, _⟩ := of_act taken
    have queued := (AssemblyRun.of_httpParse acted).1
    rw [answering.parsed] at queued
    cases queued
  | write results => exact answering.write fair taken
  | close => exact answering.close taken

theorem Quiet.read (quiet : session.Quiet) (taken : session.act (.read results) = some (.ok session')) :
    session'.Quiet := by
  obtain ⟨run', acted, rfl⟩ := of_act taken
  obtain ⟨_, _, conn, ret, returned, rfl⟩ := AssemblyRun.of_read acted
  obtain ⟨readData, readIdx, frame⟩ := session.run.conn.read_frame results
  rw [returned] at frame
  obtain rfl : conn = _ := frame
  exact ⟨quiet.dataLen, quiet.errors, quiet.counts, quiet.sent⟩

/-- With nothing to send `Write` asks for no `writev`. -/
theorem Quiet.write (quiet : session.Quiet) (fair : session.Fair (.write results))
    (taken : session.act (.write results) = some (.ok session')) : session'.Quiet := by
  obtain ⟨run', acted, rfl⟩ := of_act taken
  obtain ⟨_, _, ret, returned, rfl⟩ := AssemblyRun.of_write acted
  have silent (results : List WritevResult) : session.run.conn.write results =
      ⟨session.run.conn.reset, some true, [session.run.conn.modFd .epollIn], results⟩ := by
    rw [CHttp.write, if_pos (by rw [quiet.dataLen]; rfl)]
  cases results with
  | nil =>
    refine ⟨?_, quiet.errors, ?_, ?_⟩
    · simp only [silent]
      rfl
    · simp only [noted, quiet.counts, List.nil_append]
      rfl
    · simp only [noted, silent, quiet.sent, List.nil_append]
      rfl
  | cons result results =>
    have asked := fair.1.asked 0 (by simp)
    rw [silent] at asked
    cases asked

theorem Quiet.httpParse (quiet : session.Quiet) (keeps : session.run.Keeps) (fair : session.Fair (.httpParse answer))
    (taken : session.act (.httpParse answer) = some (.ok session')) : session'.Stage := by
  obtain ⟨run', acted, rfl⟩ := of_act taken
  obtain ⟨queued, conn, effects, done, rfl⟩ := AssemblyRun.of_httpParse acted
  have idle := (keeps.queued queued).2
  obtain ⟨read, status, parsed, _, _, ending⟩ := CHttp.httpParseTask_cases done
  have idle := idle.parseRead parsed
  rcases ending with ⟨rfl, rfl, rfl⟩ | ⟨notOpened, _, rfl, rfl⟩ | ⟨_, failed, _⟩
  · refine .quiet ⟨idle.dataLen, ?_, ?_, ?_⟩
    · simpa [noted, parsed] using quiet.errors
    · simpa [noted, parsed] using quiet.counts
    · simpa [noted, parsed] using quiet.sent
  · have decided : session.noted (.httpParse answer) =
        { session with answers := session.answers ++ [(status, answer)] } := by
      simp [noted, parsed, notOpened]
    rw [decided]
    cases reply : replyTo status answer with
    | error code title form =>
      refine .quiet ⟨(CHttp.parseWrite_error idle reply).2.dataLen, ?_, quiet.counts, quiet.sent⟩
      intro entry member
      rcases List.mem_append.mp member with earlier | last
      · exact quiet.errors entry earlier
      · rw [List.mem_singleton.mp last, reply]
        rfl
    | file stat =>
      have prepared := (CHttp.parseWrite_file idle reply).2
      have small := fair stat (of_replyTo_file reply).2
      have addr : (read.parseWrite status answer).1.fileAddr = answer.mmap stat.stSize := by
        obtain ⟨_, _, frame⟩ := CHttp.addFileHeader_outputs
          { read with fileStat := stat, fileAddr := answer.mmap stat.stSize } stat.stSize
        rw [CHttp.parseWrite_of_file reply, CHttp.offerFile, frame]
        rfl
      have aligned := prepared.aligned (length_fileHeader false stat.stSize).1 small
      rw [CHttp.fileResponse, addr] at aligned
      refine .answering status answer stat ⟨⟨session.answers, rfl, quiet.errors⟩, reply, prepared.output,
        prepared.writeIdx,
        ?_, ?_, rfl, ?_, fun _ => rfl, fun armed => by cases armed⟩
      · simp only [quiet.sent, quiet.counts, List.sum_nil, List.take_zero]
      · simp only [quiet.counts, List.sum_nil]
        exact Nat.zero_le _
      · intro _
        simp only [quiet.counts, List.sum_nil]
        exact aligned
  · cases (idle.assembled status answer).done.symm.trans failed

theorem Quiet.next (quiet : session.Quiet) (keeps : session.run.Keeps) (fair : session.Fair step)
    (taken : session.act step = some (.ok session')) : session'.Stage := by
  cases step with
  | init sockfd triggerMode =>
    obtain ⟨run', acted, _⟩ := of_act taken
    cases acted
  | read results => exact .quiet (quiet.read taken)
  | httpParse answer => exact quiet.httpParse keeps fair taken
  | write results => exact .quiet (quiet.write fair taken)
  | close =>
    obtain ⟨run', acted, rfl⟩ := of_act taken
    obtain rfl := AssemblyRun.of_close acted
    exact .quiet ⟨quiet.dataLen, quiet.errors, quiet.counts, quiet.sent⟩

theorem reachable_keeps (reachable : sessionSystem.Reachable allowed session) : session.run.Keeps := by
  refine reachable.invariant (fun session => session.run.Keeps) ?_ ?_
  · rintro session ⟨conn, sockfd, triggerMode, rfl⟩
    exact AssemblyRun.keeps_start conn sockfd triggerMode
  · intro session step session' keeps _ taken
    obtain ⟨run', acted, same⟩ := of_act taken
    rw [same]
    exact keeps.next acted

theorem reachable_stage (reachable : sessionSystem.Reachable Fair session) : session.run.Keeps ∧ session.Stage := by
  refine reachable.invariant (fun session => session.run.Keeps ∧ session.Stage) ?_ ?_
  · rintro session ⟨conn, sockfd, triggerMode, rfl⟩
    exact ⟨AssemblyRun.keeps_start conn sockfd triggerMode, .quiet ⟨rfl, by simp [start], rfl, rfl⟩⟩
  · rintro session step session' ⟨keeps, stage⟩ fair taken
    obtain ⟨run', acted, same⟩ := of_act taken
    have keeps' : session'.run.Keeps := by
      rw [same]
      exact keeps.next acted
    refine ⟨keeps', ?_⟩
    cases stage with
    | quiet quiet => exact quiet.next keeps fair taken
    | answering status answer stat answering => exact .answering status answer stat (answering.next fair taken)

theorem Answering.total (answering : session.Answering status answer stat) :
    (session.response stat (answer.mmap stat.stSize)).total = (fileHeader false stat.stSize).length + stat.stSize :=
  congrArg (· + stat.stSize) answering.writeIdx

/-- The addresses sent hold the head and the file. -/
theorem Answering.load (answering : session.Answering status answer stat)
    (stored : (contents (answer.mmap stat.stSize)).length = stat.stSize) :
    (session.response stat (answer.mmap stat.stSize)).pointers.map (session.run.conn.load contents) =
      (fileHeader false stat.stSize ++ contents (answer.mmap stat.stSize)).map some := by
  have length := congrArg List.length answering.head
  rw [CHttp.output, List.length_take, ← answering.writeIdx] at length
  have written : session.run.conn.writeIdx ≤ (session.run.conn.bytes contents .writeData).length := by
    show _ ≤ session.run.conn.writeData.length
    omega
  have head := session.run.conn.load_pointers contents .writeData written
  have whole : stat.stSize ≤ (session.run.conn.bytes contents (.file (answer.mmap stat.stSize))).length := stored.ge
  have file := session.run.conn.load_pointers contents (.file (answer.mmap stat.stSize)) whole
  have whole : (session.run.conn.bytes contents (.file (answer.mmap stat.stSize))).take stat.stSize =
      contents (answer.mmap stat.stSize) := List.take_of_length_le stored.le
  rw [whole] at file
  rw [FileResponse.pointers, List.map_append, List.map_append]
  refine congr (congrArg _ (head.trans ?_)) file
  rw [← answering.head]
  rfl

theorem Answering.conveying (answering : session.Answering status answer stat) :
    session.Conveying stat (answer.mmap stat.stSize) contents := by
  have total := answering.total
  refine ⟨?_, ?_, ?_, ?_⟩
  · intro stored
    rw [answering.sent, List.map_take, answering.load stored, List.map_take]
  · rw [← total]
    exact answering.bound
  · intro live
    have armed := answering.going live
    rw [← total]
    exact ⟨armed, (answering.watched armed).carried.left⟩
  · rw [← total]
    exact answering.done

theorem Answering.speaks (answering : session.Answering status answer stat) : session.Speaks contents := by
  obtain ⟨before, answers, errors⟩ := answering.last
  refine ⟨?_, ?_, ?_⟩
  · rw [answers, List.dropLast_concat]
    exact errors
  · intro none_
    have error := none_ (status, answer) (by simp [answers])
    rw [answering.reply] at error
    cases error
  · intro other question found member reply
    rw [answers] at member
    rcases List.mem_append.mp member with earlier | last
    · have error := errors _ earlier
      rw [reply] at error
      cases error
    · obtain ⟨rfl, rfl⟩ := Prod.mk.inj (List.mem_singleton.mp last)
      cases answering.reply.symm.trans reply
      exact answering.conveying

theorem Quiet.speaks (quiet : session.Quiet) : session.Speaks contents := by
  refine ⟨fun entry member => quiet.errors entry (List.mem_of_mem_dropLast member), fun _ => quiet.sent, ?_⟩
  intro status answer stat member reply
  have error := quiet.errors _ member
  rw [reply] at error
  cases error

theorem Stage.speaks (stage : session.Stage) : session.Speaks contents := by
  cases stage with
  | quiet quiet => exact quiet.speaks
  | answering status answer stat answering => exact answering.speaks

end Session

/-- Whatever is asked, and however the reads, the writes and the end of the connection interleave, the client gets
the first bytes of one response with a file, or nothing. -/
theorem speaks_of_reachable {session : Session} (reachable : sessionSystem.Reachable Session.Fair session)
    (contents : FileAddr → Bytes) : session.Speaks contents :=
  (Session.reachable_stage reachable).2.speaks

def CHttp.asks? (conn : CHttp) (results : List WritevResult) : Bool :=
  decide (∀ i < results.length, (conn.write (results.take i)).ret = none) &&
    decide (∀ i (inside : i < results.length), (results[i]).Real (conn.write (results.take i)).conn)

namespace Session

def fair? (session : Session) : ConnStep → Bool
  | .httpParse answer =>
    answer.stat.all fun stat => decide ((fileHeader false stat.stSize).length + stat.stSize < 2 ^ 31)
  | .write results => session.run.conn.asks? results &&
    match session.counts ++ writeCounts results with
    | first :: second :: _ => decide (session.run.conn.writeIdx ≤ first + second)
    | _ => true
  | _ => true

theorem fair?_sound {session : Session} (may : session.fair? step = true) : session.Fair step := by
  cases step with
  | httpParse answer =>
    intro stat found
    rw [fair?, found, Option.all_some] at may
    exact of_decide_eq_true may
  | write results =>
    simp only [fair?, CHttp.asks?, Bool.and_eq_true, decide_eq_true_eq] at may
    refine ⟨⟨may.1.1, may.1.2⟩, fun first second rest same => ?_⟩
    have past := may.2
    rw [same] at past
    exact of_decide_eq_true past
  | init | read | close => exact trivial

end Session

/-- A file that is not there is asked for, and then one of 100 bytes; the response goes out with an
interruption. -/
def askedTwice : List ConnStep :=
  [.read [.received (ascii "GET / HTTP/1.1\r\n\r\n")], .httpParse ⟨none, .null, []⟩, .write [],
    .read [.received (ascii "GET / HTTP/1.1\r\n\r\n")], .httpParse hundredBytes, .write [⟨60, .other⟩, ⟨-1, .eagain⟩],
    .write [⟨121, .other⟩]]

theorem askedTwice_speaks : ∃ session : Session, session.answers.length = 2 ∧ session.counts = [60, 121] ∧
    session.run.live = false ∧ session.Speaks fun _ => List.replicate 100 65 := by
  have checked : ((System.Reachable.follow Session.act Session.fair? (.start default 5 0)
      askedTwice).any fun session =>
      session.answers.length == 2 && session.counts == [60, 121] && !session.run.live) = true := by decide +kernel
  obtain ⟨session, followed, state⟩ := (Option.any_eq_true ..).mp checked
  rw [Bool.and_eq_true, Bool.and_eq_true, beq_iff_eq, beq_iff_eq, Bool.not_eq_true'] at state
  obtain ⟨⟨answers, counts⟩, closed⟩ := state
  exact ⟨session, answers, counts, closed, speaks_of_reachable (System.Reachable.followed (.init ⟨default, 5, 0, rfl⟩)
    (fun _ _ _ => Session.fair?_sound) (fun _ _ _ => id) followed) _⟩

end WSlyh.Http
