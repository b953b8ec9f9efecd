import WSlyh.Http.Mapping

/-! The assembly of a response, call by call of `AddLine`, over the whole life of one connection. -/

namespace WSlyh.Http

open Libc Lib

/-- One call of `AddLine`, for a text that is already formatted. -/
structure LineCall where
  conn : CHttp
  text : Bytes

/-- The line is taken whole, and the bytes before it stay as they are. -/
structure LineCall.Succeeds (call : LineCall) : Prop where
  taken : (call.conn.addLine call.text).2 = true
  kept : (call.conn.addLine call.text).1.writeData.take call.conn.writeIdx =
    call.conn.writeData.take call.conn.writeIdx
  before : call.conn.writeIdx ≤ maxWriteDataBuffSize - 2
  after : (call.conn.addLine call.text).1.writeIdx ≤ maxWriteDataBuffSize - 2

/-- What a helper of `ParseWrite` leaves and returns, and the calls of `AddLine` that it comes to. -/
structure Assembly where
  result : CHttp × Bool
  calls : List LineCall

namespace Assembly

def addLine (text : Bytes) (conn : CHttp) : Assembly := ⟨conn.addLine text, [⟨conn, text⟩]⟩

/-- The first result is not looked at. -/
def followedBy (first : Assembly) (next : CHttp → Assembly) : Assembly where
  result := (next first.result.1).result
  calls := first.calls ++ (next first.result.1).calls

/-- `first && next` -/
def andThen (first : Assembly) (next : CHttp → Assembly) : Assembly where
  result := CHttp.andThen first.result fun conn => (next conn).result
  calls := first.calls ++ if first.result.2 then (next first.result.1).calls else []

def addStatusLine (status : Nat) (title : Bytes) : CHttp → Assembly := addLine (statusLine status title)

def addContentLength (contentlen : Int) : CHttp → Assembly :=
  addLine (ascii "Content-Length:" ++ intText contentlen ++ [CR, LF])

def addLinger (conn : CHttp) : Assembly :=
  addLine (ascii "Connection:" ++ ascii (if conn.linger then "keep-alive" else "close") ++ [CR, LF]) conn

def addContentType : CHttp → Assembly := addLine (ascii "Content-Type:text/html" ++ [CR, LF])

def addBlankLine : CHttp → Assembly := addLine [CR, LF]

def addHeaders (contentlen : Int) (conn : CHttp) : Assembly :=
  (((addContentLength contentlen conn).andThen addLinger).andThen addContentType).andThen addBlankLine

def addError (status : Nat) (title form : Bytes) (conn : CHttp) : Assembly :=
  ((addStatusLine status title conn).followedBy (addHeaders (int32 form.length))).followedBy (addLine form)

def addFileHeader (size : Nat) (conn : CHttp) : Assembly :=
  (addStatusLine 200 ok200Title conn).followedBy (addHeaders (int32 size))

def parseWrite (conn : CHttp) (status : HttpRequestDecodeState) (answer : FileAnswer) : Assembly :=
  if status.isInvalid then addError 400 error400Title error400Form conn
  else if status == .complete then
    match answer.stat with
    | none => addError 404 error404Title error404Form conn
    | some stat =>
      let conn := { conn with fileStat := stat }
      if !stat.othersRead then addError 403 error403Title error403Form conn
      else if stat.isDir then addError 404 error404Title error404Form conn
      else
        let head := addFileHeader stat.stSize { conn with fileAddr := answer.mmap stat.stSize }
        { head with result := (head.result.1.offerFile stat.stSize, true) }
  else addError 500 error500Title error500Form conn

/-- Without the record of its calls this is `ParseWrite`. -/
theorem parseWrite_result (conn : CHttp) (status : HttpRequestDecodeState) (answer : FileAnswer) :
    (parseWrite conn status answer).result = conn.parseWrite status answer := by
  unfold parseWrite CHttp.parseWrite
  split
  · rfl
  · split
    · cases answer.stat with
      | none => rfl
      | some stat =>
        dsimp only
        split
        · rfl
        · split <;> rfl
    · rfl

/-- A step that appends one text with calls that all succeed, as long as the buffer has room for it. -/
structure Appends (keepAlive : Bool) (step : CHttp → Assembly) (text : Bytes) : Prop where
  appends : CHttp.Appends keepAlive (fun conn => (step conn).result) text
  succeed : ∀ conn : CHttp, conn.writeData.length = maxWriteDataBuffSize → conn.linger = keepAlive →
    conn.writeIdx + text.length < maxWriteDataBuffSize - 1 → ∀ call ∈ (step conn).calls, call.Succeeds

end Assembly

namespace CHttp

variable {conn conn' : CHttp} {text : Bytes}

theorem Wrote.linger (wrote : conn.Wrote text conn') : conn'.linger = conn.linger := by
  rw [wrote.frame]
  rfl

theorem Wrote.kept (wrote : conn.Wrote text conn') (inside : conn.writeIdx ≤ conn.writeData.length) :
    conn'.writeData.take conn.writeIdx = conn.writeData.take conn.writeIdx := by
  have whole := congrArg (List.take conn.writeIdx) wrote.output
  rw [CHttp.output, CHttp.output, wrote.writeIdx, List.take_take, Nat.min_eq_left (Nat.le_add_right _ _)] at whole
  rw [whole, List.take_append_of_le_length (by rw [List.length_take]; omega), List.take_take, Nat.min_self]

end CHttp

theorem LineCall.succeeds {call : LineCall} (buffer : call.conn.writeData.length = maxWriteDataBuffSize)
    (fits : call.conn.writeIdx + call.text.length < maxWriteDataBuffSize - 1) : call.Succeeds := by
  obtain ⟨taken, wrote⟩ := CHttp.addLine_wrote buffer fits
  refine ⟨taken, wrote.kept (by omega), by omega, ?_⟩
  rw [wrote.writeIdx]
  omega

namespace Assembly

variable {keepAlive : Bool} {step next : CHttp → Assembly} {text front back : Bytes}

theorem appends_addLine (keepAlive : Bool) (text : Bytes) : Appends keepAlive (addLine text) text := by
  refine ⟨CHttp.appends_addLine keepAlive text, ?_⟩
  intro conn buffer _ fits call member
  rw [List.mem_singleton.mp member]
  exact LineCall.succeeds buffer fits

/-- The calls of two steps in a row. -/
theorem Appends.succeed_both (first : Appends keepAlive step front) (second : Appends keepAlive next back)
    (conn : CHttp) (buffer : conn.writeData.length = maxWriteDataBuffSize) (lingers : conn.linger = keepAlive)
    (fits : conn.writeIdx + (front ++ back).length < maxWriteDataBuffSize - 1) :
    ∀ call ∈ ((step conn).followedBy next).calls, call.Succeeds := by
  intro call member
  rw [List.length_append] at fits
  obtain ⟨_, wrote⟩ := first.appends conn buffer lingers (by omega)
  rcases List.mem_append.mp member with early | late
  · exact first.succeed conn buffer lingers (by omega) call early
  · apply second.succeed _ wrote.buffer (wrote.linger.trans lingers) _ call late
    rw [wrote.writeIdx]
    omega

theorem Appends.followedBy (first : Appends keepAlive step front) (second : Appends keepAlive next back) :
    Appends keepAlive (fun conn => (step conn).followedBy next) (front ++ back) :=
  ⟨first.appends.then second.appends, first.succeed_both second⟩

theorem Appends.andThen (first : Appends keepAlive step front) (second : Appends keepAlive next back) :
    Appends keepAlive (fun conn => (step conn).andThen next) (front ++ back) := by
  refine ⟨first.appends.andThen second.appends, ?_⟩
  intro conn buffer lingers fits call member
  have both := first.succeed_both second conn buffer lingers fits
  rw [List.length_append] at fits
  have done := (first.appends conn buffer lingers (by omega)).1
  simp only [Assembly.andThen, done, if_true] at member
  exact both call member

theorem appends_addHeaders (keepAlive : Bool) (contentlen : Int) :
    Appends keepAlive (addHeaders contentlen) (headerLines keepAlive contentlen) := by
  refine (((appends_addLine keepAlive _).andThen ⟨?_, ?_⟩).andThen (appends_addLine keepAlive _)).andThen
    (appends_addLine keepAlive _)
  · intro conn buffer lingers fits
    subst lingers
    exact CHttp.addLine_wrote buffer fits
  · intro conn buffer lingers fits call member
    subst lingers
    exact (appends_addLine conn.linger _).succeed conn buffer rfl fits call member

theorem appends_addError (keepAlive : Bool) (status : Nat) (title form : Bytes) :
    Appends keepAlive (addError status title form) (errorResponse keepAlive status title form) :=
  ((appends_addLine keepAlive _).followedBy (appends_addHeaders keepAlive _)).followedBy
    (appends_addLine keepAlive form)

theorem appends_addFileHeader (keepAlive : Bool) (size : Nat) :
    Appends keepAlive (addFileHeader size) (fileHeader keepAlive size) :=
  (appends_addLine keepAlive _).followedBy (appends_addHeaders keepAlive _)

section Replies

variable {status : HttpRequestDecodeState} {answer : FileAnswer}

theorem parseWrite_of_error (conn : CHttp) (reply : replyTo status answer = .error code title form) :
    ∃ fileStat, parseWrite conn status answer = addError code title form { conn with fileStat } := by
  unfold replyTo at reply
  unfold parseWrite
  split_ifs at reply with invalid complete
  · cases reply
    exact ⟨conn.fileStat, by rw [if_pos invalid]⟩
  · rw [if_neg invalid, if_pos complete]
    cases found : answer.stat with
    | none =>
      rw [found] at reply
      cases reply
      exact ⟨conn.fileStat, rfl⟩
    | some stat =>
      rw [found] at reply
      dsimp only at reply ⊢
      refine ⟨stat, ?_⟩
      split_ifs at reply with readable dir
      · cases reply
        rw [if_pos readable]
      · cases reply
        rw [if_neg readable, if_pos dir]
  · cases reply
    exact ⟨conn.fileStat, by rw [if_neg invalid, if_neg complete]⟩

theorem parseWrite_of_file (conn : CHttp) (reply : replyTo status answer = .file stat) :
    (parseWrite conn status answer).calls =
      (addFileHeader stat.stSize { conn with fileStat := stat, fileAddr := answer.mmap stat.stSize }).calls := by
  unfold replyTo at reply
  split_ifs at reply with invalid complete
  cases found : answer.stat with
  | none => simp [found] at reply
  | some stat' =>
    simp only [found] at reply
    split_ifs at reply with readable dir
    cases reply
    simp only [parseWrite, found, if_neg invalid, if_pos complete, if_neg readable, if_neg dir]

end Replies

end Assembly

/-- `ParseWrite` starts at the beginning of the buffer, each of its calls succeeds, and it ends with
room behind what it wrote. -/
structure CHttp.Assembled (conn : CHttp) (status : HttpRequestDecodeState) (answer : FileAnswer) : Prop where
  start : conn.writeIdx = 0
  succeed : ∀ call ∈ (Assembly.parseWrite conn status answer).calls, call.Succeeds
  done : (conn.parseWrite status answer).2 = true
  bound : (conn.parseWrite status answer).1.writeIdx ≤ maxWriteDataBuffSize - 2
  linger : (conn.parseWrite status answer).1.linger = false

/-- Where nothing is written, there is room for every response. -/
theorem CHttp.Idle.assembled {conn : CHttp} (idle : conn.Idle) (status : HttpRequestDecodeState)
    (answer : FileAnswer) :
    conn.Assembled status answer := by
  cases reply : replyTo status answer with
  | error code title form =>
    obtain ⟨fileStat, same⟩ := Assembly.parseWrite_of_error conn reply
    have short := short_of_replyTo false reply
    have steps := Assembly.appends_addError false code title form
    have room : conn.writeIdx + (errorResponse false code title form).length < maxWriteDataBuffSize - 1 := by
      rw [idle.writeIdx]
      omega
    obtain ⟨done, wrote⟩ := steps.appends { conn with fileStat } idle.writeData idle.linger room
    have result := Assembly.parseWrite_result conn status answer
    rw [same] at result
    dsimp only at done wrote
    rw [result] at done wrote
    refine ⟨idle.writeIdx, ?_, done, ?_, wrote.linger.trans idle.linger⟩
    · rw [same]
      exact steps.succeed { conn with fileStat } idle.writeData idle.linger room
    · rw [wrote.writeIdx]
      show conn.writeIdx + _ ≤ _
      omega
  | file stat =>
    obtain ⟨done, prepared⟩ := parseWrite_file idle reply
    have short := (length_fileHeader false stat.stSize).2
    refine ⟨idle.writeIdx, ?_, done, ?_, prepared.linger⟩
    · rw [Assembly.parseWrite_of_file conn reply]
      apply (Assembly.appends_addFileHeader false stat.stSize).succeed
      · exact idle.writeData
      · exact idle.linger
      · show conn.writeIdx + _ < _
        rw [idle.writeIdx]
        omega
    · rw [prepared.writeIdx]
      omega

/-- What the descriptor is armed for, if the call arms it. -/
def Effect.arms : Effect → Option EpollEvent
  | .addFd .. => some .epollIn
  | .modFd _ event _ => some event
  | _ => none

/-- What the descriptor is armed for after the calls: the last of them counts. -/
def armedBy (effects : List Effect) : Option EpollEvent := effects.reverse.findSome? Effect.arms

/-- One connection. `armed` is what the descriptor is watched for until the next event, `queued` tells
that `HttpParse` is still to run, and `live` that the event loop has not closed the connection. -/
structure AssemblyRun where
  conn : CHttp
  armed : Option EpollEvent
  queued : Bool
  live : Bool

namespace AssemblyRun

/-- After `Init`. -/
def start (conn : CHttp) (sockfd triggerMode : Int) : AssemblyRun where
  conn := (conn.init sockfd triggerMode).1
  armed := armedBy (conn.init sockfd triggerMode).2
  queued := false
  live := true

/-- An event disarms the descriptor. A `Read` or `Write` that returns false has the connection
closed; so has the timer, which may run out while `HttpParse` is still to come. -/
def act (run : AssemblyRun) : ConnStep → Option (Except StringFailure AssemblyRun)
  | .init .. => none
  | .read results =>
    if run.live ∧ run.armed = some .epollIn then
      match run.conn.read results with
      | (conn, some ret) => some (.ok { conn, armed := none, queued := ret, live := ret })
      | (_, none) => none
    else none
  | .httpParse answer =>
    if run.queued then
      some ((run.conn.httpParseTask answer).map fun (conn, effects) =>
        { conn, armed := armedBy effects, queued := false, live := run.live })
    else none
  | .write results =>
    if run.live ∧ run.armed = some .epollOut then
      let outcome := run.conn.write results
      outcome.ret.map fun ret => .ok { run with conn := outcome.conn, armed := armedBy outcome.effects, live := ret }
    else none
  | .close => if run.live then some (.ok { run with live := false }) else none

/-- The response to the request that is waiting is assembled whole, and the connection stays. -/
structure Assembles (run : AssemblyRun) : Prop where
  bound : run.conn.writeIdx ≤ maxWriteDataBuffSize - 2
  assembled : run.queued = true → ∀ read status answer, run.conn.parseRead answer.behind = .ok (read, status) →
    status ≠ .opened → read.Assembled status answer
  stays : run.queued = true → ∀ answer conn effects, run.conn.httpParseTask answer = .ok (conn, effects) →
    effects.any Effect.removes = false

/-- What every reachable state keeps: a response is under way or nothing is written. -/
structure Keeps (run : AssemblyRun) : Prop where
  bound : run.conn.writeIdx ≤ maxWriteDataBuffSize - 2
  linger : run.conn.linger = false
  queued : run.queued = true → run.armed = none ∧ run.conn.Idle
  watched : run.live = true → run.armed = some .epollIn → run.conn.Idle

end AssemblyRun

/-- The runs of one connection, from the `Init` of a new object or of one that has served others. -/
def assemblySystem : System AssemblyRun ConnStep where
  init run := ∃ conn sockfd triggerMode, run = .start conn sockfd triggerMode
  step run step run' := run.act step = some (.ok run')

namespace CHttp

variable {conn conn' : CHttp} {status : HttpRequestDecodeState} {answer : FileAnswer}

/-- `ParseRead` leaves the write side alone. -/
theorem Idle.parseRead (idle : conn.Idle) (done : conn.parseRead behind = .ok (conn', status)) : conn'.Idle := by
  obtain ⟨httpParse, _, rfl⟩ := parseRead_frame done
  exact ⟨idle.dataLen, idle.dataSendLen, idle.writeIdx, idle.linger, idle.writeData⟩

theorem Idle.bound (idle : conn.Idle) : conn.writeIdx ≤ maxWriteDataBuffSize - 2 := by
  rw [idle.writeIdx]
  exact Nat.zero_le _

/-- On a connection that is not kept alive the loop of `Write` returns true only to go on later. -/
theorem writeLoop_ends (lingers : conn.linger = false) (results : List WritevResult) :
    (conn.writeLoop results).conn.writeIdx = conn.writeIdx ∧ (conn.writeLoop results).conn.linger = false ∧
      ((conn.writeLoop results).ret = some true → armedBy (conn.writeLoop results).effects = some .epollOut) := by
  induction results generalizing conn with
  | nil => exact ⟨rfl, lingers, fun returned => by cases returned⟩
  | cons result results ih =>
    have unmmap_frame (conn : CHttp) : conn.unmmap.1.writeIdx = conn.writeIdx ∧
      conn.unmmap.1.linger = conn.linger := by
      unfold unmmap
      split <;> exact ⟨rfl, rfl⟩
    rw [writeLoop]
    dsimp only
    split
    · split
      · exact ⟨rfl, lingers, fun _ => rfl⟩
      · obtain ⟨writeIdx, linger⟩ := unmmap_frame conn
        exact ⟨writeIdx, linger.trans lingers, fun returned => by cases returned⟩
    · obtain ⟨writeIdx, linger⟩ := unmmap_frame (conn.count (int32 result.ret))
      have close : (conn.count (int32 result.ret)).unmmap.1.linger = false := linger.trans lingers
      split
      · rw [if_neg (by rw [close]; exact Bool.false_ne_true)]
        exact ⟨writeIdx, close, fun returned => by cases returned⟩
      · have onward : (conn.count (int32 result.ret)).advance.writeIdx = conn.writeIdx ∧
            (conn.count (int32 result.ret)).advance.linger = false := by
          unfold advance
          split <;> exact ⟨rfl, lingers⟩
        obtain ⟨later, kept, armed⟩ := ih onward.2
        refine ⟨later.trans onward.1, kept, fun returned => ?_⟩
        have rest := armed returned
        unfold armedBy at rest ⊢
        rw [List.reverse_cons, List.findSome?_append, rest]
        rfl

/-- Where `Write` returns true and waits for a request, nothing is written. -/
theorem write_ends (conn : CHttp) (lingers : conn.linger = false) (results : List WritevResult) :
    (conn.write results).conn.writeIdx ≤ conn.writeIdx ∧ (conn.write results).conn.linger = false ∧
      ((conn.write results).ret = some true → armedBy (conn.write results).effects = some .epollIn →
        (conn.write results).conn.Idle) := by
  unfold write
  split
  · exact ⟨Nat.zero_le _, lingers, fun _ _ => ⟨rfl, rfl, rfl, lingers, List.length_replicate⟩⟩
  · obtain ⟨same, kept, armed⟩ := writeLoop_ends lingers results
    refine ⟨same.le, kept, fun returned watched => ?_⟩
    rw [armed returned] at watched
    cases watched

end CHttp

namespace AssemblyRun

variable {run run' : AssemblyRun}

theorem Keeps.assembles (keeps : run.Keeps) : run.Assembles := by
  refine ⟨keeps.bound, ?_, ?_⟩
  · intro queued read status answer parsed notOpened
    exact ((keeps.queued queued).2.parseRead parsed).assembled status answer
  · intro queued answer conn effects done
    obtain ⟨read, status, parsed, _, _, ending⟩ := CHttp.httpParseTask_cases done
    have whole := ((keeps.queued queued).2.parseRead parsed).assembled status answer
    rcases ending with ⟨_, _, rfl⟩ | ⟨_, _, _, rfl⟩ | ⟨_, failed, _⟩
    · rfl
    · rfl
    · cases whole.done.symm.trans failed

theorem keeps_start (conn : CHttp) (sockfd triggerMode : Int) : (start conn sockfd triggerMode).Keeps := by
  have idle : (start conn sockfd triggerMode).conn.Idle := ⟨rfl, rfl, rfl, rfl, List.length_replicate⟩
  exact ⟨idle.bound, idle.linger, nofun, fun _ _ => idle⟩

theorem Keeps.read (keeps : run.Keeps) (taken : run.act (.read results) = some (.ok run')) : run'.Keeps := by
  simp only [act] at taken
  split at taken
  · rename_i ready
    have idle := (keeps.watched ready.1 ready.2).read results
    split at taken
    · rename_i conn ret returned
      cases taken
      rw [returned] at idle
      exact ⟨idle.bound, idle.linger, fun _ => ⟨rfl, idle⟩, nofun⟩
    · cases taken
  · cases taken

theorem Keeps.httpParse (keeps : run.Keeps) (taken : run.act (.httpParse answer) = some (.ok run')) : run'.Keeps := by
  simp only [act] at taken
  split at taken
  · rename_i queued
    have idle := (keeps.queued queued).2
    cases done : run.conn.httpParseTask answer with
    | error exception =>
      rw [done] at taken
      cases taken
    | ok result =>
      obtain ⟨conn', effects⟩ := result
      rw [done] at taken
      cases taken
      obtain ⟨read, status, parsed, _, _, ending⟩ := CHttp.httpParseTask_cases done
      have idle := idle.parseRead parsed
      have whole := idle.assembled status answer
      rcases ending with ⟨_, rfl, _⟩ | ⟨_, _, rfl, armed⟩ | ⟨_, failed, _⟩
      · exact ⟨idle.bound, idle.linger, nofun, fun _ _ => idle⟩
      · subst armed
        exact ⟨whole.bound, whole.linger, nofun, nofun⟩
      · cases whole.done.symm.trans failed
  · cases taken

theorem Keeps.write (keeps : run.Keeps) (taken : run.act (.write results) = some (.ok run')) : run'.Keeps := by
  simp only [act] at taken
  split at taken
  · rename_i ready
    obtain ⟨ret, returned, result⟩ := Option.map_eq_some_iff.mp taken
    cases result
    have none_ (queued : run.queued = true) : False := by
      have disarmed := (keeps.queued queued).1
      rw [ready.2] at disarmed
      cases disarmed
    obtain ⟨bound, linger, watched⟩ := run.conn.write_ends keeps.linger results
    refine ⟨bound.trans keeps.bound, linger, fun queued => (none_ queued).elim, fun live armed => ?_⟩
    exact watched (returned.trans (congrArg some live)) armed
  · cases taken

theorem Keeps.next (keeps : run.Keeps) (taken : run.act step = some (.ok run')) : run'.Keeps := by
  cases step with
  | init sockfd triggerMode => cases taken
  | read results => exact keeps.read taken
  | httpParse answer => exact keeps.httpParse taken
  | write results => exact keeps.write taken
  | close =>
    simp only [act] at taken
    split at taken
    · cases taken
      exact ⟨keeps.bound, keeps.linger, keeps.queued, nofun⟩
    · cases taken

theorem reachable_keeps (reachable : assemblySystem.Reachable allowed run) : run.Keeps := by
  refine reachable.invariant Keeps ?_ fun _ _ _ keeps _ taken => keeps.next taken
  rintro run ⟨conn, sockfd, triggerMode, rfl⟩
  exact keeps_start conn sockfd triggerMode

end AssemblyRun

/-- Whatever the client, the file system and the network do, the response that is due is assembled whole. -/
theorem assembles_of_reachable (reachable : assemblySystem.Reachable (fun _ _ => True) run) : run.Assembles :=
  (AssemblyRun.reachable_keeps reachable).assembles

/-- A file that is not there is asked for in two pieces, and after the answer a second request comes. -/
theorem secondRequest_assembles : ∃ run : AssemblyRun, run.queued = true ∧ run.conn.readIdx = 18 ∧ run.Assembles := by
  have checked : ((System.Reachable.follow AssemblyRun.act (fun _ _ => true) (.start default 5 0)
      [.read [.received (ascii "GET ")], .httpParse ⟨none, .null, []⟩, .read [.received (ascii "/ HTTP/1.1\r\n\r\n")],
        .httpParse ⟨none, .null, []⟩, .write [], .read [.received (ascii "GET / HTTP/1.1\r\n\r\n")]]).any
      fun run => run.queued && run.conn.readIdx == 18) = true := by decide +kernel
  obtain ⟨run, followed, state⟩ := (Option.any_eq_true ..).mp checked
  rw [Bool.and_eq_true, beq_iff_eq] at state
  exact ⟨run, state.1, state.2, assembles_of_reachable (System.Reachable.followed (.init ⟨default, 5, 0, rfl⟩)
    (fun _ _ _ _ => trivial) (fun _ _ _ => id) followed)⟩

end WSlyh.Http
