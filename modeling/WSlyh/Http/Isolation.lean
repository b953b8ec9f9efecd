import WSlyh.Http.Mapping

/-! What a connection object still has of the connection before, and that nobody sees it. -/

namespace WSlyh.Http

open Libc Lib

/-- The fields that `Init` leaves as they were. -/
structure Leftover where
  fileAddr : FileAddr
  fileStat : FileStat
  iv0 : IoVec
  iv1 : IoVec
  ivCount : Nat

def CHttp.leftover (conn : CHttp) : Leftover := ⟨conn.fileAddr, conn.fileStat, conn.iv0, conn.iv1, conn.ivCount⟩

def SHttpRequest.withBody (req : SHttpRequest) (strBody : Bytes) : SHttpRequest := { req with strBody }

def CHttp.withBody (conn : CHttp) (strBody : Bytes) : CHttp :=
  { conn with httpParse := conn.httpParse.withBody strBody }

/-- The object with another history. The body may be of another history too, since it is copied from
whatever is in memory behind the bytes that have been received. -/
def CHttp.after (conn : CHttp) (old : Leftover) (strBody : Bytes) : CHttp :=
  { conn.withBody strBody with
    fileAddr := old.fileAddr
    fileStat := old.fileStat
    iv0 := old.iv0
    iv1 := old.iv1
    ivCount := old.ivCount }

/-- What one call shows: what it returns, what it asks of the kernel, and the bytes that each of its
`writev` is offered. -/
inductive Shown
  | returned (ret : Option Bool) (effects : List Effect) (offers : List Bytes)
  | threw (exception : StringFailure)

section Offers

/- What is in memory at an address, which may depend on everything that is in the object. -/
variable (contents : CHttp → Pointer → UInt8)

/-- The body has its bytes elsewhere. -/
def CHttp.contentAt (conn : CHttp) : Pointer → UInt8 := contents (conn.withBody [])

/-- The same answer, with the bytes that lie behind this object. -/
def CHttp.surrounds (conn : CHttp) (answer : FileAnswer) : FileAnswer :=
  { answer with
    behind := (List.range answer.behind.length).map fun i : Nat =>
      conn.contentAt contents ⟨.writeData, maxWriteDataBuffSize + i⟩ }

/-- The bytes that the loop of `Write` offers, one `writev` after the other. -/
def CHttp.loopOffers (conn : CHttp) : List WritevResult → List Bytes
  | [] => [conn.offered.map (conn.contentAt contents)]
  | result :: results =>
    let temp := int32 result.ret
    let counted := conn.count temp
    let later := if temp < 0 ∨ counted.dataLen ≤ 0 then [] else counted.advance.loopOffers results
    conn.offered.map (conn.contentAt contents) :: later

def CHttp.writeOffers (conn : CHttp) (results : List WritevResult) : List Bytes :=
  if conn.dataLen == 0 then [] else conn.loopOffers contents results

/-- There is one for each result that the loop comes to, and one more while it waits for a result. -/
theorem CHttp.length_loopOffers (conn : CHttp) (results : List WritevResult) :
    (conn.loopOffers contents results).length + (conn.writeLoop results).rest.length =
      results.length + if (conn.writeLoop results).ret.isNone then 1 else 0 := by
  induction results generalizing conn with
  | nil => simp [loopOffers, writeLoop]
  | cons result results ih =>
    have onward := ih (conn.count (int32 result.ret)).advance
    rw [loopOffers, writeLoop]
    by_cases failed : int32 result.ret < 0
    · by_cases again : result.errno = .eagain
      · simp [failed, again]
        omega
      · simp [failed, again]
        omega
    · by_cases done : (conn.count (int32 result.ret)).dataLen ≤ 0
      · simp only [failed, done, or_true, if_true, if_false, List.length_cons, List.length_nil]
        split
        · simp
          omega
        · simp
          omega
      · simp only [failed, done, or_self, if_false, List.length_cons]
        omega

/-- A call that has not returned is the last one. -/
def connMachine : Machine CHttp ConnStep Shown where
  act conn
    | .init sockfd triggerMode =>
      (.returned none (conn.init sockfd triggerMode).2 [], some (conn.init sockfd triggerMode).1)
    | .read results => (.returned (conn.read results).2 [] [],
      (conn.read results).2.map fun _ => (conn.read results).1)
    | .httpParse answer =>
      match conn.httpParseTask (conn.surrounds contents answer) with
      | .ok (conn, effects) => (.returned none effects [], some conn)
      | .error exception => (.threw exception, none)
    | .write results =>
      (.returned (conn.write results).ret (conn.write results).effects (conn.writeOffers contents results),
        (conn.write results).ret.map fun _ => (conn.write results).conn)
    | .close => (.returned none [] [], some conn)

end Offers

/-- Only the body differs, or nothing is to be sent yet and only the history differs. -/
def CHttp.Alike (first second : CHttp) : Prop :=
  ∃ old strBody, second = first.after old strBody ∧ (first.dataLen = 0 ∨ old = first.leftover)

namespace SHttpRequest

variable {req : SHttpRequest} {loc : ParseLocals} {buf behind behind' : Bytes} {size : Nat}

/-- Which bytes are in memory behind the buffer is seen in the body only. -/
theorem parseRound_withBody (buf : Bytes) (size : Nat) (long : behind'.length = behind.length) (req : SHttpRequest)
    (loc : ParseLocals) (strBody : Bytes) :
    ∃ strBody', (req.withBody strBody).parseRound buf size behind' loc =
      (req.parseRound buf size behind loc).map fun parsed => (parsed.1.withBody strBody', parsed.2) := by
  by_cases body : req.decodeState = .body
  · have extent : (buf ++ behind').length = (buf ++ behind).length := by simp [long]
    have state : (req.withBody strBody).decodeState = .body := body
    have position : (req.withBody strBody).nextPos = req.nextPos := rfl
    refine ⟨((buf ++ behind').drop req.nextPos).take loc.bodyLength.toNat, ?_⟩
    unfold parseRound
    simp only [body, state, position, assignBody, extent]
    split_ifs <;> rfl
  · refine ⟨strBody, ?_⟩
    unfold parseRound
    cases found : req.decodeState <;> simp only [found, withBody]
    case body => exact absurd found body
    case method | inUri | protocol | version =>
      split_ifs <;> first | rfl | (cases StringBuffer.toString .. <;> rfl)
    case uriParamValue | headerValue =>
      split_ifs <;> first | rfl | (cases StringBuffer.toString .. <;> cases StringBuffer.toString .. <;> rfl)
    case crLfCr =>
      cases req.headers.find? contentLengthName <;> dsimp only <;> split_ifs <;> rfl
    case invalid | invalidMethod | invalidUri | invalidVersion | invalidHeader | complete | opened => rfl
    all_goals
      split_ifs <;> rfl

theorem parseLoop_withBody (long : behind'.length = behind.length) (rounds : Nat) (strBody : Bytes) :
    ∃ strBody', parseLoop buf size behind' rounds (req.withBody strBody) loc =
      (parseLoop buf size behind rounds req loc).map fun parsed => (parsed.1.withBody strBody', parsed.2) := by
  induction rounds generalizing req loc strBody with
  | zero => exact ⟨strBody, rfl⟩
  | succ rounds ih =>
    have state : (req.withBody strBody).decodeState = req.decodeState := rfl
    have position : (req.withBody strBody).nextPos = req.nextPos := rfl
    simp only [parseLoop, state, position]
    split
    · obtain ⟨strBody', round⟩ := parseRound_withBody buf size long req loc strBody
      rw [round]
      cases req.parseRound buf size behind loc with
      | error failure => exact ⟨[], rfl⟩
      | ok parsed => exact ih strBody'
    · exact ⟨strBody, rfl⟩

theorem parseInternal_withBody (buf : Bytes) (size : Nat) (long : behind'.length = behind.length) (req : SHttpRequest)
    (strBody : Bytes) :
    ∃ strBody', (req.withBody strBody).parseInternal buf size behind' =
      (req.parseInternal buf size behind).map fun req => req.withBody strBody' := by
  have position : (req.withBody strBody).nextPos = req.nextPos := rfl
  obtain ⟨strBody', loop⟩ := parseLoop_withBody long (size - req.nextPos) strBody
  refine ⟨strBody', ?_⟩
  rw [parseInternal, parseInternal, position, loop]
  cases parseLoop buf size behind (size - req.nextPos) req {} <;> rfl

end SHttpRequest

namespace CHttp

variable {conn first second : CHttp} {old : Leftover} {strBody : Bytes}

theorem init_alike (first second : CHttp) (sockfd triggerMode : Int) :
    (first.init sockfd triggerMode).1.Alike (second.init sockfd triggerMode).1 :=
  ⟨second.leftover, [], rfl, .inl rfl⟩

theorem readLoop_after (conn : CHttp) (old : Leftover) (strBody : Bytes) (results : List RecvResult) :
    (conn.after old strBody).readLoop results =
      ((conn.readLoop results).1.after old strBody, (conn.readLoop results).2) := by
  induction results generalizing conn with
  | nil => rfl
  | cons result results ih =>
    have same : (conn.after old strBody).recv result = conn.recv result := by cases result <;> rfl
    have onward (bytes : Bytes) := ih (conn.receive bytes)
    rw [readLoop, readLoop, same]
    split
    · rfl
    · rfl
    · rfl
    · exact onward _

theorem read_after (conn : CHttp) (old : Leftover) (strBody : Bytes) (results : List RecvResult) :
    (conn.after old strBody).read results = ((conn.read results).1.after old strBody, (conn.read results).2) := by
  have full : (conn.after old strBody).readIdx = conn.readIdx := rfl
  have mode : (conn.after old strBody).triggerMode = conn.triggerMode := rfl
  simp only [CHttp.read, full, mode, readLoop_after]
  split
  · rfl
  · split
    · rfl
    · cases results with
      | nil => rfl
      | cons result results =>
        have same : (conn.after old strBody).recv result = conn.recv result := by cases result <;> rfl
        simp only [same]
        split <;> rfl

/-- A step that neither reads nor writes the history. -/
def Blind (step : CHttp → CHttp × Bool) : Prop :=
  ∀ conn old strBody, step (CHttp.after conn old strBody) = ((step conn).1.after old strBody, (step conn).2)

theorem Blind.andThen {step next : CHttp → CHttp × Bool} (first : Blind step) (second : Blind next) :
    Blind fun conn => CHttp.andThen (step conn) next := by
  intro conn old strBody
  simp only [CHttp.andThen, first conn old, second (step conn).1 old]
  split <;> rfl

theorem Blind.then {step next : CHttp → CHttp × Bool} (first : Blind step) (second : Blind next) :
    Blind fun conn => next (step conn).1 := by
  intro conn old strBody
  simp only [first conn old, second (step conn).1 old]

theorem blind_addLine (text : Bytes) : Blind (addLine · text) := by
  intro conn old strBody
  have index : (conn.after old strBody).writeIdx = conn.writeIdx := rfl
  simp only [addLine, index]
  split
  · rfl
  · split <;> rfl

theorem blind_addHeaders (contentlen : Int) : Blind (addHeaders · contentlen) := by
  have linger : Blind addLinger := by
    intro conn old strBody
    exact blind_addLine _ conn old strBody
  exact (((blind_addLine _).andThen linger).andThen (blind_addLine _)).andThen (blind_addLine _)

theorem blind_addStatusLine (status : Nat) (title : Bytes) : Blind (addStatusLine · status title) := blind_addLine _

theorem blind_addError (status : Nat) (title form : Bytes) : Blind (addError · status title form) :=
  ((blind_addStatusLine status title).then (blind_addHeaders _)).then (blind_addLine form)

theorem addFileHeader_after (conn : CHttp) (old : Leftover) (strBody : Bytes) (size : Nat) :
    (conn.after old strBody).addFileHeader size = (conn.addFileHeader size).after old strBody := by
  have both := (blind_addStatusLine 200 ok200Title).then (blind_addHeaders (int32 size))
  exact congrArg Prod.fst (both conn old strBody)

/-- Once a file is offered the history is overwritten. -/
theorem addFile_alike (conn : CHttp) (old : Leftover) (strBody : Bytes) (size : Nat)
    (fileAddr : old.fileAddr = conn.fileAddr) (fileStat : old.fileStat = conn.fileStat) :
    ((conn.addFileHeader size).offerFile size).Alike
      (((conn.after old strBody).addFileHeader size).offerFile size) := by
  obtain ⟨writeData, writeIdx, written⟩ := addFileHeader_outputs conn size
  rw [addFileHeader_after, written]
  refine ⟨((conn.withOutput writeData writeIdx).offerFile size).leftover, strBody, ?_, .inr rfl⟩
  obtain ⟨_, _, _, _, _⟩ := old
  cases fileAddr
  cases fileStat
  have index (conn : CHttp) (old : Leftover) : (conn.after old strBody).writeIdx = conn.writeIdx := rfl
  unfold offerFile
  rw [index]
  generalize int32 _ = dataLen
  rfl

/-- What `ParseRead` returns for a request of which so much has been received. -/
def readStatus (httpParse : SHttpRequest) (readIdx : Nat) : HttpRequestDecodeState :=
  if httpParse.getLen == readIdx then
    if httpParse.getStatus == .body && httpParse.strMethod == ascii "GET" then .complete
    else if !httpParse.getStatus.isInvalid then .opened
    else httpParse.getStatus
  else httpParse.getStatus

theorem parseRead_eq (conn : CHttp) (behind : Bytes) :
    conn.parseRead behind =
      (conn.httpParse.parseInternal conn.readData conn.readIdx (conn.writeData ++ behind)).map fun httpParse =>
        ({ conn with httpParse }, readStatus httpParse conn.readIdx) := by
  unfold parseRead
  cases conn.httpParse.parseInternal conn.readData conn.readIdx (conn.writeData ++ behind) with
  | error exception => rfl
  | ok httpParse =>
    simp only [bind, Except.bind, Except.map, readStatus]
    split_ifs <;> rfl

theorem parseRead_after (long : behind'.length = behind.length) (conn : CHttp) (old : Leftover) (strBody : Bytes) :
    ∃ strBody', (conn.after old strBody).parseRead behind' =
      (conn.parseRead behind).map fun read => (read.1.after old strBody', read.2) := by
  have extent : (conn.writeData ++ behind').length = (conn.writeData ++ behind).length := by simp [long]
  obtain ⟨strBody', parsed⟩ :=
    SHttpRequest.parseInternal_withBody conn.readData conn.readIdx extent conn.httpParse strBody
  refine ⟨strBody', ?_⟩
  have same : (conn.after old strBody).httpParse.parseInternal (conn.after old strBody).readData
      (conn.after old strBody).readIdx ((conn.after old strBody).writeData ++ behind') = _ := parsed
  rw [parseRead_eq, parseRead_eq, same]
  cases conn.httpParse.parseInternal conn.readData conn.readIdx (conn.writeData ++ behind) <;> rfl

theorem addError_alike (quiet : conn.dataLen = 0 ∨ old = conn.leftover) (strBody : Bytes) (status : Nat)
    (title form : Bytes) :
    ((conn.after old strBody).addError status title form).2 = (conn.addError status title form).2 ∧
      (conn.addError status title form).1.Alike ((conn.after old strBody).addError status title form).1 := by
  obtain ⟨writeData, writeIdx, written⟩ := addError_outputs conn status title form
  have second : (conn.after old strBody).addError status title form = _ :=
    blind_addError status title form conn old strBody
  rw [second]
  refine ⟨rfl, old, strBody, rfl, ?_⟩
  rw [written]
  exact quiet

/-- An answer leaves two objects alike: the history stays unseen, or it is overwritten. -/
theorem parseWrite_alike (quiet : conn.dataLen = 0 ∨ old = conn.leftover) (strBody : Bytes)
    (status : HttpRequestDecodeState) (answer : FileAnswer) :
    ((conn.after old strBody).parseWrite status answer).2 = (conn.parseWrite status answer).2 ∧
      (conn.parseWrite status answer).1.Alike ((conn.after old strBody).parseWrite status answer).1 := by
  unfold parseWrite
  split_ifs
  · exact addError_alike quiet strBody ..
  · cases answer.stat with
    | none => exact addError_alike quiet strBody ..
    | some stat =>
      have quiet' : ({ conn with fileStat := stat } : CHttp).dataLen = 0 ∨
          { old with fileStat := stat } = ({ conn with fileStat := stat } : CHttp).leftover := by
        rcases quiet with silent | rfl
        · exact .inl silent
        · exact .inr rfl
      dsimp only
      split_ifs
      · exact addError_alike quiet' strBody ..
      · exact addError_alike quiet' strBody ..
      · have start : ({ conn.after old strBody with fileStat := stat, fileAddr := answer.mmap stat.stSize } : CHttp) =
          ({ conn with fileStat := stat, fileAddr := answer.mmap stat.stSize } : CHttp).after
            { old with fileStat := stat, fileAddr := answer.mmap stat.stSize } strBody := rfl
        rw [start]
        exact ⟨rfl, addFile_alike _ _ strBody stat.stSize rfl rfl⟩
  · exact addError_alike quiet strBody ..

theorem Alike.modFd (alike : first.Alike second) (event : EpollEvent) : first.modFd event = second.modFd event := by
  obtain ⟨old, strBody, rfl, _⟩ := alike
  rfl

theorem Alike.closeHttp (alike : first.Alike second) :
    first.closeHttp.2 = second.closeHttp.2 ∧ first.closeHttp.1.Alike second.closeHttp.1 := by
  obtain ⟨old, strBody, rfl, quiet⟩ := alike
  unfold CHttp.closeHttp
  have same : (first.after old strBody).sockFd = first.sockFd := rfl
  rw [same]
  split
  · exact ⟨rfl, old, strBody, rfl, quiet⟩
  · exact ⟨rfl, old, strBody, rfl, quiet⟩

theorem advance_withBody (conn : CHttp) (strBody : Bytes) :
    (conn.withBody strBody).advance = conn.advance.withBody strBody := by
  have sent : (conn.withBody strBody).dataSendLen = conn.dataSendLen := rfl
  have head : (conn.withBody strBody).iv0 = conn.iv0 := rfl
  unfold advance
  rw [sent, head]
  split <;> rfl

/-- `Write` does not look at the body. -/
theorem writeLoop_withBody (conn : CHttp) (strBody : Bytes) (results : List WritevResult) :
    ∃ strBody', (conn.withBody strBody).writeLoop results =
      { conn.writeLoop results with conn := (conn.writeLoop results).conn.withBody strBody' } := by
  induction results generalizing conn with
  | nil => exact ⟨strBody, rfl⟩
  | cons result results ih =>
    have unmmap (conn : CHttp) : (conn.withBody strBody).unmmap = (conn.unmmap.1.withBody strBody, conn.unmmap.2) := by
      have same : (conn.withBody strBody).fileAddr = conn.fileAddr := rfl
      unfold CHttp.unmmap
      rw [same]
      split <;> rfl
    have counted (temp : Int) : (conn.withBody strBody).count temp = (conn.count temp).withBody strBody := rfl
    have offered : (conn.withBody strBody).offered = conn.offered := rfl
    have left (conn : CHttp) : (conn.withBody strBody).dataLen = conn.dataLen := rfl
    have linger (conn : CHttp) : (conn.withBody strBody).linger = conn.linger := rfl
    rw [writeLoop, writeLoop]
    simp only [counted, unmmap, advance_withBody, offered, left, linger]
    split_ifs
    · exact ⟨strBody, rfl⟩
    · exact ⟨strBody, rfl⟩
    · exact ⟨[], rfl⟩
    · exact ⟨strBody, rfl⟩
    · obtain ⟨strBody', onward⟩ := ih (conn.count (int32 result.ret)).advance
      rw [onward]
      exact ⟨strBody', rfl⟩

end CHttp

section Unwinding

variable (contents : CHttp → Pointer → UInt8) {conn : CHttp} {old : Leftover}

open CHttp

theorem loopOffers_withBody (conn : CHttp) (strBody : Bytes) (results : List WritevResult) :
    (conn.withBody strBody).loopOffers contents results = conn.loopOffers contents results := by
  induction results generalizing conn with
  | nil => rfl
  | cons result results ih =>
    have counted : (conn.withBody strBody).count (int32 result.ret) =
      (conn.count (int32 result.ret)).withBody strBody := rfl
    rw [loopOffers, loopOffers, counted, advance_withBody, ih]
    rfl

theorem httpParse_unwinds (quiet : conn.dataLen = 0 ∨ old = conn.leftover) (strBody : Bytes) (answer : FileAnswer) :
    ((connMachine contents).act conn (.httpParse answer)).1 =
        ((connMachine contents).act (conn.after old strBody) (.httpParse answer)).1 ∧
      Option.Rel Alike ((connMachine contents).act conn (.httpParse answer)).2
        ((connMachine contents).act (conn.after old strBody) (.httpParse answer)).2 := by
  have long : ((conn.after old strBody).surrounds contents answer).behind.length =
      (conn.surrounds contents answer).behind.length := by
    simp [surrounds]
  obtain ⟨strBody', other⟩ := parseRead_after long conn old strBody
  simp only [connMachine, httpParseTask, other]
  cases parsed : conn.parseRead (conn.surrounds contents answer).behind with
  | error exception => exact ⟨rfl, .none⟩
  | ok result =>
    obtain ⟨read, status⟩ := result
    obtain ⟨httpParse, _, frame⟩ := parseRead_frame parsed
    have readQuiet : read.dataLen = 0 ∨ old = read.leftover := by
      rw [frame]
      exact quiet
    have answered (conn other : CHttp) : read.parseWrite status (conn.surrounds contents answer) =
        read.parseWrite status (other.surrounds contents answer) := rfl
    simp only [Except.map, bind, Except.bind]
    cases opened : status == .opened with
    | true => exact ⟨rfl, .some ⟨old, strBody', rfl, readQuiet⟩⟩
    | false =>
      rw [answered conn (conn.after old strBody)]
      obtain ⟨ret, alike⟩ :=
        parseWrite_alike readQuiet strBody' status ((conn.after old strBody).surrounds contents answer)
      rw [ret]
      cases failed : (read.parseWrite status ((conn.after old strBody).surrounds contents answer)).2 with
      | true =>
        have same := alike.modFd .epollOut
        simp only [Bool.not_true, Bool.false_eq_true, if_false, same]
        exact ⟨trivial, .some alike⟩
      | false =>
        obtain ⟨effects, closed⟩ := alike.closeHttp
        simp only [Bool.not_false, if_true, effects, Bool.false_eq_true, if_false]
        exact ⟨trivial, .some closed⟩

/-- Where nothing is announced `Write` offers nothing; elsewhere only the body differs. -/
theorem write_unwinds (quiet : conn.dataLen = 0 ∨ old = conn.leftover) (strBody : Bytes)
    (results : List WritevResult) :
    ((connMachine contents).act conn (.write results)).1 =
        ((connMachine contents).act (conn.after old strBody) (.write results)).1 ∧
      Option.Rel Alike ((connMachine contents).act conn (.write results)).2
        ((connMachine contents).act (conn.after old strBody) (.write results)).2 := by
  by_cases silent : conn.dataLen = 0
  · have idle (some : CHttp) (nothing : some.dataLen = 0) : some.write results =
        { conn := some.reset, ret := .some true, effects := [some.modFd .epollIn], rest := results } ∧
        some.writeOffers contents results = [] := by
      simp [write, writeOffers, nothing]
    have first := idle conn silent
    have second := idle (conn.after old strBody) silent
    simp only [connMachine, first.1, first.2, second.1, second.2]
    exact ⟨rfl, .some ⟨old, [], rfl, .inl rfl⟩⟩
  · have same : conn.after old strBody = conn.withBody strBody := by
      rw [quiet.resolve_left silent]
      rfl
    have announced (conn : CHttp) (strBody : Bytes) : (conn.withBody strBody).dataLen = conn.dataLen := rfl
    obtain ⟨strBody', written⟩ := writeLoop_withBody conn strBody results
    have loop (some : CHttp) (announces : ¬ some.dataLen = 0) :
        some.write results = some.writeLoop results ∧
        some.writeOffers contents results = some.loopOffers contents results := by
      simp [write, writeOffers, announces]
    have first := loop conn silent
    have second := loop (conn.withBody strBody) silent
    rw [same]
    simp only [connMachine, first.1, first.2, second.1, second.2, written, loopOffers_withBody]
    refine ⟨trivial, ?_⟩
    cases (conn.writeLoop results).ret with
    | none => exact .none
    | some ret => exact .some ⟨_, strBody', rfl, .inr rfl⟩

/-- No call tells one history from another. -/
theorem connMachine_unwinds : (connMachine contents).Unwinds Alike := by
  rintro first _ step ⟨old, strBody, rfl, quiet⟩
  cases step with
  | init sockfd triggerMode => exact ⟨rfl, .some (init_alike ..)⟩
  | read results =>
    simp only [connMachine, read_after]
    refine ⟨trivial, ?_⟩
    obtain ⟨readData, readIdx, frame⟩ := read_frame first results
    cases (first.read results).2 with
    | none => exact .none
    | some ret =>
      refine .some ⟨old, strBody, rfl, ?_⟩
      rw [frame]
      exact quiet
  | httpParse answer => exact httpParse_unwinds contents quiet strBody answer
  | write results => exact write_unwinds contents quiet strBody results
  | close => exact ⟨rfl, .some ⟨old, strBody, rfl, quiet⟩⟩

end Unwinding

/-- Whoever had the object before, and whatever lies behind it in the memory, after `Init` it returns, asks
for and offers the same. -/
theorem watch_init (contents : CHttp → Pointer → UInt8) (first second : CHttp) (sockfd triggerMode : Int)
    (steps : List ConnStep) :
    (connMachine contents).watch first (.init sockfd triggerMode :: steps) =
      (connMachine contents).watch second (.init sockfd triggerMode :: steps) := by
  have onward := (connMachine_unwinds contents).watch_eq (CHttp.init_alike first second sockfd triggerMode) steps
  exact congrArg (Shown.returned none (first.init sockfd triggerMode).2 [] :: ·) onward

end WSlyh.Http
