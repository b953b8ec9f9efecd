import WSlyh.Http.Connection
import Mathlib.Tactic.SplitIfs

/-! The states in which a response is built, and what `ParseWrite` puts into them. -/

namespace WSlyh.Http

open Libc

/-- The states between `Init` and a response: bytes arrive, the parser runs, and a response
that `ParseWrite` left unannounced is dropped by the next `Write`. -/
inductive CHttp.Receiving : CHttp → Prop where
  | init (conn : CHttp) (sockfd triggerMode : Int) : Receiving (conn.init sockfd triggerMode).1
  | read (before : Receiving conn) (results : List RecvResult) : Receiving (conn.read results).1
  | parseRead (before : Receiving conn) (done : conn.parseRead behind = .ok (conn', status)) : Receiving conn'
  | dropped (before : Receiving conn) (answer : FileAnswer)
      (unannounced : (conn.parseWrite status answer).1.dataLen = 0) (results : List WritevResult) :
      Receiving ((conn.parseWrite status answer).1.write results).conn

/-- Nothing is waiting to be sent and nothing is written. -/
structure CHttp.Idle (conn : CHttp) : Prop where
  dataLen : conn.dataLen = 0
  dataSendLen : conn.dataSendLen = 0
  writeIdx : conn.writeIdx = 0
  linger : conn.linger = false
  writeData : conn.writeData.length = maxWriteDataBuffSize

/-- The fields that `AddLine` writes, and nothing else. -/
def CHttp.withOutput (conn : CHttp) (writeData : Bytes) (writeIdx : Nat) : CHttp :=
  { conn with writeData, writeIdx }

/-- Nothing changed but what is written. -/
def CHttp.Outputs (conn conn' : CHttp) : Prop := ∃ writeData writeIdx, conn' = conn.withOutput writeData writeIdx

theorem CHttp.Outputs.trans {conn : CHttp} (first : conn.Outputs conn₁) (second : conn₁.Outputs conn₂) :
    conn.Outputs conn₂ := by
  obtain ⟨_, _, rfl⟩ := first
  obtain ⟨writeData, writeIdx, rfl⟩ := second
  exact ⟨writeData, writeIdx, rfl⟩

theorem CHttp.addLine_outputs (conn : CHttp) (text : Bytes) : conn.Outputs (conn.addLine text).1 := by
  unfold addLine
  split
  · exact ⟨_, _, rfl⟩
  · dsimp only
    split <;> exact ⟨_, _, rfl⟩

theorem CHttp.andThen_outputs {conn : CHttp} {step : CHttp × Bool} {next : CHttp → CHttp × Bool}
    (first : conn.Outputs step.1) (second : ∀ conn : CHttp, conn.Outputs (next conn).1) :
    conn.Outputs (andThen step next).1 := by
  unfold andThen
  split
  · exact first.trans (second _)
  · exact first

theorem CHttp.addHeaders_outputs (conn : CHttp) (contentlen : Int) : conn.Outputs (conn.addHeaders contentlen).1 :=
  andThen_outputs (andThen_outputs (andThen_outputs (addLine_outputs ..) fun _ => addLine_outputs ..)
    fun _ => addLine_outputs ..) fun _ => addLine_outputs ..

theorem CHttp.addError_outputs (conn : CHttp) (status : Nat) (title form : Bytes) :
    conn.Outputs (conn.addError status title form).1 :=
  ((addLine_outputs ..).trans (addHeaders_outputs ..)).trans (addLine_outputs ..)

theorem CHttp.addFileHeader_outputs (conn : CHttp) (size : Nat) : conn.Outputs (conn.addFileHeader size) :=
  (addLine_outputs ..).trans (addHeaders_outputs ..)

theorem length_overwrite {buf : Bytes} (fits : offset + bytes.length ≤ buf.length) :
    (overwrite buf offset bytes).length = buf.length := by
  simp only [overwrite, List.length_append, List.length_take, List.length_drop]
  omega

/-- The bytes written so far. -/
def CHttp.output (conn : CHttp) : Bytes := conn.writeData.take conn.writeIdx

/-- `conn'` is `conn` with a text appended to what it had written. -/
structure CHttp.Wrote (conn : CHttp) (text : Bytes) (conn' : CHttp) : Prop where
  frame : conn' = conn.withOutput conn'.writeData (conn.writeIdx + text.length)
  buffer : conn'.writeData.length = maxWriteDataBuffSize
  output : conn'.output = conn.output ++ text

theorem CHttp.Wrote.writeIdx {conn : CHttp} (wrote : conn.Wrote text conn') :
    conn'.writeIdx = conn.writeIdx + text.length := congrArg CHttp.writeIdx wrote.frame

theorem CHttp.Wrote.trans {conn : CHttp} (first : conn.Wrote front conn₁) (second : conn₁.Wrote back conn₂) :
    conn.Wrote (front ++ back) conn₂ := by
  refine ⟨?_, second.buffer, by rw [second.output, first.output, List.append_assoc]⟩
  have frame := second.frame
  rw [first.frame] at frame
  rw [List.length_append, ← Nat.add_assoc]
  exact frame

theorem CHttp.addLine_wrote {conn : CHttp} (buffer : conn.writeData.length = maxWriteDataBuffSize)
    (fits : conn.writeIdx + text.length < maxWriteDataBuffSize - 1) :
    (conn.addLine text).2 = true ∧ conn.Wrote text (conn.addLine text).1 := by
  have room : ¬ maxWriteDataBuffSize - 1 - conn.writeIdx = 0 := by omega
  have kept : text.take (maxWriteDataBuffSize - 1 - conn.writeIdx - 1) = text :=
    List.take_of_length_le (by omega)
  have stored : (conn.addLine text) =
      (conn.withOutput (overwrite conn.writeData conn.writeIdx (text ++ [0])) (conn.writeIdx + text.length),
        true) := by
    unfold addLine
    rw [if_neg (by omega)]
    simp only [room, if_false, kept]
    rw [if_neg (by omega)]
    rfl
  rw [stored]
  refine ⟨rfl, rfl, ?_, ?_⟩
  · rw [← buffer]
    exact length_overwrite (by rw [List.length_append, List.length_singleton]; omega)
  · have head : (conn.writeData.take conn.writeIdx).length = conn.writeIdx := by
      rw [List.length_take]
      omega
    have text_end : conn.writeIdx + text.length = (conn.writeData.take conn.writeIdx ++ text).length := by
      rw [List.length_append, head]
    simp only [output, withOutput, overwrite]
    rw [text_end, ← List.append_assoc, List.append_assoc (_ ++ _), List.take_left]

def statusLine (status : Nat) (title : Bytes) : Bytes :=
  ascii "HTTP/1.1 " ++ intText status ++ ascii " " ++ title ++ [CR, LF]

/-- The header lines that end in the blank line, for a printed `Content-Length`. -/
def headerLines (linger : Bool) (contentlen : Int) : Bytes :=
  ascii "Content-Length:" ++ intText contentlen ++ [CR, LF] ++
    (ascii "Connection:" ++ ascii (if linger then "keep-alive" else "close") ++ [CR, LF]) ++
    (ascii "Content-Type:text/html" ++ [CR, LF]) ++ [CR, LF]

theorem length_headerLines (linger : Bool) {contentlen : Int} (low : -2 ^ 31 ≤ contentlen)
    (high : contentlen < 2 ^ 31) : (headerLines linger contentlen).length ≤ 100 := by
  have digits := length_intText low high
  have fixed : (ascii "Content-Length:").length = 15 ∧ (ascii "Connection:").length = 11 ∧
      (ascii "Content-Type:text/html").length = 22 ∧ (ascii "keep-alive").length = 10 ∧
      (ascii "close").length = 5 := by decide
  cases linger <;> simp only [headerLines, List.length_append, List.length_cons, List.length_nil, fixed,
    if_true, Bool.false_eq_true, if_false] <;> omega

/-- A step that appends one text to the output, as long as the buffer has room for it. -/
def CHttp.Appends (keepAlive : Bool) (step : CHttp → CHttp × Bool) (text : Bytes) : Prop :=
  ∀ conn : CHttp, conn.writeData.length = maxWriteDataBuffSize → conn.linger = keepAlive →
    conn.writeIdx + text.length < maxWriteDataBuffSize - 1 →
    (step conn).2 = true ∧ conn.Wrote text (step conn).1

theorem CHttp.Appends.then (first : Appends keepAlive step front) (second : Appends keepAlive next back) :
    Appends keepAlive (fun conn => next (step conn).1) (front ++ back) := by
  intro conn buffer lingers fits
  rw [List.length_append] at fits
  obtain ⟨_, wrote⟩ := first conn buffer lingers (by omega)
  have kept : (step conn).1.linger = keepAlive := by
    rw [wrote.frame]
    exact lingers
  obtain ⟨done, more⟩ := second (step conn).1 wrote.buffer kept (by rw [wrote.writeIdx]; omega)
  exact ⟨done, wrote.trans more⟩

theorem CHttp.Appends.andThen (first : Appends keepAlive step front) (second : Appends keepAlive next back) :
    Appends keepAlive (fun conn => CHttp.andThen (step conn) next) (front ++ back) := by
  intro conn buffer lingers fits
  have both := first.then second conn buffer lingers fits
  rw [List.length_append] at fits
  have done := (first conn buffer lingers (by omega)).1
  simp only [CHttp.andThen, done, if_true]
  exact both

theorem CHttp.appends_addLine (keepAlive : Bool) (text : Bytes) : Appends keepAlive (addLine · text) text :=
  fun _ buffer _ fits => addLine_wrote buffer fits

theorem CHttp.appends_addStatusLine (keepAlive : Bool) (status : Nat) (title : Bytes) :
    Appends keepAlive (addStatusLine · status title) (statusLine status title) :=
  appends_addLine keepAlive (statusLine status title)

theorem CHttp.appends_addHeaders (keepAlive : Bool) (contentlen : Int) :
    Appends keepAlive (addHeaders · contentlen) (headerLines keepAlive contentlen) := by
  refine (((appends_addLine keepAlive _).andThen ?_).andThen (appends_addLine keepAlive _)).andThen
    (appends_addLine keepAlive _)
  intro conn buffer lingers fits
  subst lingers
  exact addLine_wrote buffer fits

/-- The whole text of an error response. -/
def errorResponse (keepAlive : Bool) (status : Nat) (title form : Bytes) : Bytes :=
  statusLine status title ++ headerLines keepAlive (int32 form.length) ++ form

theorem CHttp.appends_addError (keepAlive : Bool) (status : Nat) (title form : Bytes) :
    Appends keepAlive (addError · status title form) (errorResponse keepAlive status title form) :=
  ((appends_addStatusLine keepAlive status title).then (appends_addHeaders keepAlive _)).then
    (appends_addLine keepAlive form)

/-- What `ParseWrite` decides to answer. -/
inductive Reply
  | error (status : Nat) (title form : Bytes)
  | file (stat : FileStat)
  deriving DecidableEq

def replyTo (status : HttpRequestDecodeState) (answer : FileAnswer) : Reply :=
  if status.isInvalid then .error 400 error400Title error400Form
  else if status == .complete then
    match answer.stat with
    | none => .error 404 error404Title error404Form
    | some stat =>
      if !stat.othersRead then .error 403 error403Title error403Form
      else if stat.isDir then .error 404 error404Title error404Form
      else .file stat
  else .error 500 error500Title error500Form

/-- An error response lies in the write buffer, and nothing announces it to `Write`. -/
structure CHttp.Answered (conn : CHttp) (response : Bytes) : Prop where
  output : conn.output = response
  buffer : conn.writeData.length = maxWriteDataBuffSize
  dataLen : conn.dataLen = 0
  dataSendLen : conn.dataSendLen = 0
  linger : conn.linger = false

/-- A file response, as its header lies in the write buffer and the vectors describe it. -/
structure CHttp.Prepared (conn : CHttp) (header : Bytes) (size : Nat) : Prop where
  output : conn.output = header
  buffer : conn.writeData.length = maxWriteDataBuffSize
  short : header.length < maxWriteDataBuffSize
  writeIdx : conn.writeIdx = header.length
  iv0 : conn.iv0 = ⟨⟨.writeData, 0⟩, header.length⟩
  iv1 : conn.iv1 = ⟨⟨.file conn.fileAddr, 0⟩, size⟩
  ivCount : conn.ivCount = 2
  dataLen : conn.dataLen = int32 (header.length + size)
  dataSendLen : conn.dataSendLen = 0
  linger : conn.linger = false

private theorem CHttp.addError_answered {conn : CHttp} (idle : conn.Idle)
    (short : (errorResponse false status title form).length < maxWriteDataBuffSize - 1) :
    (conn.addError status title form).2 = true ∧
      (conn.addError status title form).1.Answered (errorResponse false status title form) := by
  obtain ⟨done, wrote⟩ := appends_addError false status title form conn idle.writeData idle.linger
    (by rw [idle.writeIdx]; omega)
  have empty : conn.output = [] := by rw [output, idle.writeIdx, List.take_zero]
  refine ⟨done, by rw [wrote.output, empty, List.nil_append], wrote.buffer, ?_, ?_, ?_⟩
  · rw [wrote.frame]; exact idle.dataLen
  · rw [wrote.frame]; exact idle.dataSendLen
  · rw [wrote.frame]; exact idle.linger

/-- The error responses that exist are far smaller than the write buffer. -/
private theorem short_errorResponse (keepAlive : Bool) {status : Nat} {title form : Bytes}
    (digits : status < 1000) (names : title.length ≤ 20) (text : form.length ≤ 100) :
    (errorResponse keepAlive status title form).length < maxWriteDataBuffSize - 1 := by
  have headers := length_headerLines keepAlive (int32_bounds form.length).1 (int32_bounds form.length).2
  have code : (intText status).length ≤ 11 := length_intText (by omega) (by omega)
  have fixed : (ascii "HTTP/1.1 ").length = 9 ∧ (ascii " ").length = 1 := by decide
  simp only [errorResponse, statusLine, List.length_append, List.length_cons, List.length_nil, fixed,
    maxWriteDataBuffSize]
  omega

/-- Whatever error is answered, its response fits the write buffer. -/
theorem short_of_replyTo (keepAlive : Bool) (reply : replyTo status answer = .error code title form) :
    (errorResponse keepAlive code title form).length < maxWriteDataBuffSize - 1 := by
  unfold replyTo at reply
  split_ifs at reply with invalid complete
  · cases reply
    exact short_errorResponse keepAlive (by decide) (by decide) (by decide)
  · cases found : answer.stat with
    | none =>
      rw [found] at reply
      cases reply
      exact short_errorResponse keepAlive (by decide) (by decide) (by decide)
    | some stat =>
      simp only [found] at reply
      split_ifs at reply
      · cases reply
        exact short_errorResponse keepAlive (by decide) (by decide) (by decide)
      · cases reply
        exact short_errorResponse keepAlive (by decide) (by decide) (by decide)
  · cases reply
    exact short_errorResponse keepAlive (by decide) (by decide) (by decide)

/-- The connection that an error branch of `ParseWrite` starts from: `stat` may have filled
`m_sFileStat`. -/
theorem CHttp.parseWrite_of_error (conn : CHttp) (reply : replyTo status answer = .error code title form) :
    ∃ fileStat, (fileStat = conn.fileStat ∨ status = .complete ∧ answer.stat = some fileStat) ∧
      conn.parseWrite status answer = ({ conn with fileStat } : CHttp).addError code title form := by
  unfold replyTo at reply
  unfold parseWrite
  split_ifs at reply with invalid complete
  · cases reply
    exact ⟨_, .inl rfl, by rw [if_pos invalid]⟩
  · have status : status = .complete := by simpa using complete
    rw [if_neg invalid, if_pos complete]
    cases found : answer.stat with
    | none =>
      rw [found] at reply
      cases reply
      exact ⟨_, .inl rfl, rfl⟩
    | some stat =>
      rw [found] at reply
      dsimp only at reply ⊢
      refine ⟨stat, .inr ⟨status, rfl⟩, ?_⟩
      split_ifs at reply with readable dir
      · cases reply
        rw [if_pos readable]
      · cases reply
        rw [if_neg readable, if_pos dir]
  · cases reply
    exact ⟨_, .inl rfl, by rw [if_neg invalid, if_neg complete]⟩

theorem CHttp.parseWrite_error {conn : CHttp} (idle : conn.Idle)
    (reply : replyTo status answer = .error code title form) :
    (conn.parseWrite status answer).2 = true ∧
      (conn.parseWrite status answer).1.Answered (errorResponse false code title form) := by
  obtain ⟨fileStat, _, same⟩ := parseWrite_of_error conn reply
  have restated : ({ conn with fileStat } : CHttp).Idle :=
    ⟨idle.dataLen, idle.dataSendLen, idle.writeIdx, idle.linger, idle.writeData⟩
  rw [same]
  exact addError_answered restated (short_of_replyTo false reply)

/-- The head of the response that carries a file of `size` bytes. -/
def fileHeader (keepAlive : Bool) (size : Nat) : Bytes :=
  statusLine 200 ok200Title ++ headerLines keepAlive (int32 size)

theorem length_fileHeader (keepAlive : Bool) (size : Nat) :
    0 < (fileHeader keepAlive size).length ∧ (fileHeader keepAlive size).length < maxWriteDataBuffSize - 1 := by
  have headers := length_headerLines keepAlive (int32_bounds size).1 (int32_bounds size).2
  have status : (statusLine 200 ok200Title).length = 17 := by decide
  simp only [fileHeader, List.length_append, status, maxWriteDataBuffSize]
  omega

theorem CHttp.appends_addFileHeader (keepAlive : Bool) (size : Nat) :
    Appends keepAlive (fun conn => (conn.addStatusLine 200 ok200Title).1.addHeaders (int32 size))
      (fileHeader keepAlive size) := by
  have both := (appends_addStatusLine keepAlive 200 ok200Title).then (appends_addHeaders keepAlive (int32 size))
  unfold fileHeader
  exact both

theorem CHttp.parseWrite_of_file {conn : CHttp} (reply : replyTo status answer = .file stat) :
    conn.parseWrite status answer =
      ((({ conn with fileStat := stat, fileAddr := answer.mmap stat.stSize } : CHttp).addFileHeader
        stat.stSize).offerFile stat.stSize, true) := by
  unfold replyTo at reply
  split_ifs at reply with invalid complete
  cases found : answer.stat with
  | none => simp [found] at reply
  | some stat' =>
    simp only [found] at reply
    split_ifs at reply with readable dir
    cases reply
    unfold parseWrite
    simp only [found, if_neg invalid, if_pos complete, if_neg readable, if_neg dir]

theorem CHttp.Wrote.offerFile {conn : CHttp} (wrote : conn.Wrote header written) (idle : conn.Idle)
    (short : header.length < maxWriteDataBuffSize) (size : Nat) :
    (written.offerFile size).Prepared header size := by
  have start := wrote.writeIdx
  have text := wrote.output
  have quiet : written.dataSendLen = 0 := by
    rw [wrote.frame]
    exact idle.dataSendLen
  have close : written.linger = false := by
    rw [wrote.frame]
    exact idle.linger
  rw [idle.writeIdx, Nat.zero_add] at start
  rw [CHttp.output, CHttp.output, idle.writeIdx, List.take_zero, List.nil_append] at text
  unfold CHttp.offerFile
  exact {
    output := text
    buffer := wrote.buffer
    short := short
    writeIdx := start
    iv0 := by rw [start]
    iv1 := rfl
    ivCount := rfl
    dataLen := by rw [start]
    dataSendLen := quiet
    linger := close }

theorem CHttp.addFileHeader_wrote {conn : CHttp} (idle : conn.Idle) (size : Nat) :
    conn.Wrote (fileHeader false size) (conn.addFileHeader size) := by
  have short := (length_fileHeader false size).2
  exact (appends_addFileHeader false size conn idle.writeData idle.linger (by rw [idle.writeIdx]; omega)).2

theorem CHttp.parseWrite_file {conn : CHttp} (idle : conn.Idle) (reply : replyTo status answer = .file stat) :
    (conn.parseWrite status answer).2 = true ∧
      (conn.parseWrite status answer).1.Prepared (fileHeader false stat.stSize) stat.stSize := by
  have opened : ({ conn with fileStat := stat, fileAddr := answer.mmap stat.stSize } : CHttp).Idle :=
    ⟨idle.dataLen, idle.dataSendLen, idle.writeIdx, idle.linger, idle.writeData⟩
  rw [parseWrite_of_file reply]
  have short := (length_fileHeader false stat.stSize).2
  exact ⟨rfl, (addFileHeader_wrote opened stat.stSize).offerFile opened (by omega) stat.stSize⟩

/-- A readable file of 100 bytes. -/
def hundredBytes : FileAnswer := ⟨some ⟨100, 0o100644⟩, .mapped 0, []⟩

/-- Its response, prepared on a new connection. -/
def hundredBytesPrepared : CHttp × Bool := ((default : CHttp).init 5 1).1.parseWrite .complete hundredBytes

theorem CHttp.Idle.receive {conn : CHttp} (idle : conn.Idle) (bytes : Bytes) : (conn.receive bytes).Idle :=
  ⟨idle.dataLen, idle.dataSendLen, idle.writeIdx, idle.linger, idle.writeData⟩

theorem CHttp.Idle.readLoop (results : List RecvResult) {conn : CHttp} (idle : conn.Idle) :
    (conn.readLoop results).1.Idle := by
  induction results generalizing conn with
  | nil => exact idle
  | cons result results ih =>
    unfold CHttp.readLoop
    split
    · exact idle
    · exact idle
    · exact idle
    · exact ih (idle.receive _)

theorem CHttp.Idle.read {conn : CHttp} (idle : conn.Idle) (results : List RecvResult) :
    (conn.read results).1.Idle := by
  unfold CHttp.read
  split_ifs
  · exact idle
  · exact idle.readLoop results
  · cases results with
    | nil => exact idle
    | cons result rest =>
      dsimp only
      split
      · exact idle
      · exact idle
      · exact idle.receive _

theorem CHttp.parseRead_frame {conn : CHttp} (done : conn.parseRead behind = .ok (conn', status)) :
    ∃ httpParse, conn.httpParse.parseInternal conn.readData conn.readIdx (conn.writeData ++ behind) = .ok httpParse ∧
      conn' = { conn with httpParse } := by
  unfold parseRead at done
  cases parsed : conn.httpParse.parseInternal conn.readData conn.readIdx (conn.writeData ++ behind) with
  | error exception => simp [parsed, bind, Except.bind] at done
  | ok httpParse =>
    refine ⟨httpParse, rfl, ?_⟩
    simp only [parsed, bind, Except.bind] at done
    split_ifs at done
    all_goals
      cases done
      rfl

/-- An answer that is not announced to `Write` cannot be told from no answer. -/
theorem CHttp.Idle.dropped {conn : CHttp} (idle : conn.Idle) (answer : FileAnswer)
    (unannounced : (conn.parseWrite status answer).1.dataLen = 0) (results : List WritevResult) :
    ((conn.parseWrite status answer).1.write results).conn.Idle := by
  have lingers : (conn.parseWrite status answer).1.linger = false := by
    cases reply : replyTo status answer with
    | error code title form => exact (parseWrite_error idle reply).2.linger
    | file stat => exact (parseWrite_file idle reply).2.linger
  have unsent : ((conn.parseWrite status answer).1.dataLen == 0) = true := by rw [unannounced]; rfl
  rw [write, if_pos unsent]
  exact ⟨rfl, rfl, rfl, lingers, List.length_replicate⟩

theorem CHttp.Receiving.idle {conn : CHttp} (receiving : conn.Receiving) : conn.Idle := by
  induction receiving with
  | init conn sockfd triggerMode => exact ⟨rfl, rfl, rfl, rfl, List.length_replicate⟩
  | read before results ih => exact ih.read results
  | parseRead before done ih =>
    obtain ⟨httpParse, parsed, rfl⟩ := parseRead_frame done
    exact ⟨ih.dataLen, ih.dataSendLen, ih.writeIdx, ih.linger, ih.writeData⟩
  | dropped before answer unannounced results ih => exact ih.dropped answer unannounced results

end WSlyh.Http
