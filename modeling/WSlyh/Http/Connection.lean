import WSlyh.Http.Request

namespace WSlyh.Http

open Libc

def maxReadDataBuffSize : Nat := 5 * 1024
def maxWriteDataBuffSize : Nat := 5 * 1024

inductive Errno
  | eagain | other
  deriving DecidableEq, Repr

/-- What `writev` returns, with the value `errno` holds afterwards; a call that succeeds
leaves the `errno` of an earlier failure standing. -/
structure WritevResult where
  ret : Int
  errno : Errno
  deriving DecidableEq, Repr

inductive RecvResult
  | error (errno : Errno)
  | received (bytes : Bytes)
  deriving DecidableEq, Repr

inductive EpollEvent
  | epollIn | epollOut
  deriving DecidableEq, Repr

/-- `m_pFileAddr`: null, what a failed `mmap` returns, or the start of a mapping. -/
inductive FileAddr
  | null | mapFailed
  | mapped (mapping : Nat)
  deriving DecidableEq, Repr, Inhabited

inductive Region
  | writeData
  | file (addr : FileAddr)
  deriving DecidableEq, Repr, Inhabited

/-- An address the response is sent from; arithmetic may leave the region. -/
structure Pointer where
  region : Region
  offset : Int
  deriving DecidableEq, Repr, Inhabited

structure IoVec where
  base : Pointer
  len : Nat
  deriving DecidableEq, Repr, Inhabited

/-- The addresses a vector describes, in order. -/
def IoVec.pointers (vector : IoVec) : List Pointer :=
  (List.range vector.len).map fun i : Nat => { vector.base with offset := vector.base.offset + i }

/-- `struct stat`, as far as the server looks at it. -/
structure FileStat where
  stSize : Nat
  stMode : Nat
  deriving DecidableEq, Repr, Inhabited

/-- `st_mode & S_IROTH` -/
def FileStat.othersRead (stat : FileStat) : Bool := stat.stMode &&& 0o4 != 0

/-- `S_ISDIR(st_mode)` -/
def FileStat.isDir (stat : FileStat) : Bool := stat.stMode &&& 0o170000 == 0o40000

/-- What `HttpParse` finds outside of the object: for `m_aFile`, what `stat` answers and the mapping
that `open` and `mmap` obtain for a length that is not zero; and the memory behind `m_aWriteData`,
up to the first byte that cannot be read. -/
structure FileAnswer where
  stat : Option FileStat
  mapping : FileAddr
  behind : Bytes
  deriving DecidableEq, Repr

/-- What a connection asks of the kernel. -/
inductive Effect
  | addFd (fd : Int) (triggerMode : Int)
  | modFd (fd : Int) (event : EpollEvent) (triggerMode : Int)
  | removeFd (fd : Int)
  | send (bytes : List Pointer)
  | munmap (addr : FileAddr) (len : Nat)
  | httpCnt (change : Int)
  deriving DecidableEq, Repr

structure CHttp where
  sockFd : Int
  readData : Bytes
  writeData : Bytes
  fileAddr : FileAddr
  dataLen : Int
  dataSendLen : Int
  triggerMode : Int
  readIdx : Nat
  writeIdx : Nat
  httpParse : SHttpRequest
  fileStat : FileStat
  iv0 : IoVec
  iv1 : IoVec
  ivCount : Nat
  linger : Bool
  deriving DecidableEq, Repr, Inhabited

def CHttp.init (conn : CHttp) (sockfd triggerMode : Int) : CHttp × List Effect :=
  ({ conn with
      sockFd := sockfd
      triggerMode := triggerMode
      readIdx := 0
      writeIdx := 0
      dataLen := 0
      dataSendLen := 0
      readData := List.replicate maxReadDataBuffSize 0
      writeData := List.replicate maxWriteDataBuffSize 0
      linger := false
      httpParse := conn.httpParse.init },
    [.addFd sockfd triggerMode, .httpCnt 1])

def CHttp.closeHttp (conn : CHttp) : CHttp × List Effect :=
  if conn.sockFd == -1 then (conn, [])
  else ({ conn with sockFd := -1 }, [.removeFd conn.sockFd, .httpCnt (-1)])

def CHttp.unmmap (conn : CHttp) : CHttp × List Effect :=
  if conn.fileAddr != .null then
    ({ conn with fileAddr := .null }, [.munmap conn.fileAddr conn.fileStat.stSize])
  else (conn, [])

def CHttp.modFd (conn : CHttp) (event : EpollEvent) : Effect := .modFd conn.sockFd event conn.triggerMode

/-- Store bytes into a buffer from an offset on. -/
def overwrite (buf : Bytes) (offset : Nat) (bytes : Bytes) : Bytes :=
  buf.take offset ++ bytes ++ buf.drop (offset + bytes.length)

/-- `recv` into the rest of the read buffer. It hands over no more than there is room for; without
room that is nothing, but a socket that is drained and open fails with `EAGAIN` even then. -/
def CHttp.recv (conn : CHttp) : RecvResult → RecvResult
  | .error errno => .error errno
  | .received bytes => .received (bytes.take (maxReadDataBuffSize - conn.readIdx))

def CHttp.receive (conn : CHttp) (bytes : Bytes) : CHttp :=
  { conn with
    readData := overwrite conn.readData conn.readIdx bytes
    readIdx := conn.readIdx + bytes.length }

/-- The edge-triggered loop of `Read`, one `recv` result after the other; `none` while it
has not returned. -/
def CHttp.readLoop (conn : CHttp) : List RecvResult → CHttp × Option Bool
  | [] => (conn, none)
  | result :: results =>
    match conn.recv result with
    | .error .eagain => (conn, some true)
    | .error .other => (conn, some false)
    | .received [] => (conn, some false)
    | .received bytes => (conn.receive bytes).readLoop results

def CHttp.read (conn : CHttp) (results : List RecvResult) : CHttp × Option Bool :=
  if conn.readIdx ≥ maxReadDataBuffSize then (conn, some false)
  else if conn.triggerMode ≠ 0 then conn.readLoop results
  else match results with
    | [] => (conn, none)
    | result :: _ =>
      match conn.recv result with
      | .error _ | .received [] => (conn, some false)
      | .received bytes => (conn.receive bytes, some true)

/-- What is set back once a response is out. -/
def CHttp.reset (conn : CHttp) : CHttp :=
  { conn with
    readIdx := 0
    writeIdx := 0
    dataLen := 0
    dataSendLen := 0
    readData := List.replicate maxReadDataBuffSize 0
    writeData := List.replicate maxWriteDataBuffSize 0
    httpParse := conn.httpParse.init }

/-- The bytes a `writev` offers: those of the first `m_iIvCount` vectors. -/
def CHttp.offered (conn : CHttp) : List Pointer :=
  (([conn.iv0, conn.iv1].take conn.ivCount).map IoVec.pointers).flatten

def CHttp.count (conn : CHttp) (temp : Int) : CHttp :=
  { conn with
    dataSendLen := int32 (conn.dataSendLen + temp)
    dataLen := int32 (conn.dataLen - temp) }

/-- After a short `writev`: point the vectors past the bytes that are out. The comparison
and the subtraction are made in `size_t`. -/
def CHttp.advance (conn : CHttp) : CHttp :=
  if sizeT conn.dataSendLen ≥ conn.iv0.len then
    { conn with
      iv0 := { conn.iv0 with len := 0 }
      iv1 := ⟨⟨.file conn.fileAddr, conn.dataSendLen - conn.writeIdx⟩, sizeT conn.dataLen⟩ }
  else
    { conn with
      iv0 := ⟨⟨.writeData, conn.dataSendLen⟩, sizeT (conn.iv0.len - conn.dataSendLen)⟩ }

/-- How a `Write` ends: `ret` is `none` while its loop waits for another `writev`, and
`rest` are the results it did not come to ask for. -/
structure WriteRun where
  conn : CHttp
  ret : Option Bool
  effects : List Effect
  rest : List WritevResult
  deriving DecidableEq

/-- The loop of `Write`, one `writev` result after the other. -/
def CHttp.writeLoop (conn : CHttp) : List WritevResult → WriteRun
  | [] => { conn, ret := none, effects := [], rest := [] }
  | result :: results =>
    let temp := int32 result.ret
    let sent := Effect.send (conn.offered.take result.ret.toNat)
    if temp < 0 then
      if result.errno == .eagain then
        { conn, ret := some true, effects := [sent, conn.modFd .epollOut], rest := results }
      else
        let (closed, unmapped) := conn.unmmap
        { conn := closed, ret := some false, effects := sent :: unmapped, rest := results }
    else
      let counted := conn.count temp
      if counted.dataLen ≤ 0 then
        let (closed, unmapped) := counted.unmmap
        let effects := sent :: unmapped ++ [closed.modFd .epollIn]
        if closed.linger then { conn := closed.reset, ret := some true, effects, rest := results }
        else { conn := closed, ret := some false, effects, rest := results }
      else
        let run := counted.advance.writeLoop results
        { run with effects := sent :: run.effects }

def CHttp.write (conn : CHttp) (results : List WritevResult) : WriteRun :=
  if conn.dataLen == 0 then
    { conn := conn.reset, ret := some true, effects := [conn.modFd .epollIn], rest := results }
  else conn.writeLoop results

/-- `m_aWriteData` is what lies next behind the buffer of the request. -/
def CHttp.parseRead (conn : CHttp) (behind : Bytes) : Except StringFailure (CHttp × HttpRequestDecodeState) := do
  let httpParse ← conn.httpParse.parseInternal conn.readData conn.readIdx (conn.writeData ++ behind)
  let conn := { conn with httpParse }
  let status := httpParse.getStatus
  if httpParse.getLen == conn.readIdx then
    if status == .body && httpParse.strMethod == ascii "GET" then .ok (conn, .complete)
    else if !status.isInvalid then .ok (conn, .opened)
    else .ok (conn, status)
  else .ok (conn, status)

/-- `AddLine`, for a text that is already formatted. `vsnprintf` stores what fits, with a
null byte behind it, also when the line turns out too long. -/
def CHttp.addLine (conn : CHttp) (text : Bytes) : CHttp × Bool :=
  if conn.writeIdx ≥ maxWriteDataBuffSize then (conn, false)
  else
    let room := maxWriteDataBuffSize - 1 - conn.writeIdx
    let stored := if room = 0 then [] else text.take (room - 1) ++ [0]
    let conn := { conn with writeData := overwrite conn.writeData conn.writeIdx stored }
    if text.length ≥ room then (conn, false)
    else ({ conn with writeIdx := conn.writeIdx + text.length }, true)

def CHttp.addStatusLine (conn : CHttp) (status : Nat) (title : Bytes) : CHttp × Bool :=
  conn.addLine (ascii "HTTP/1.1 " ++ intText status ++ ascii " " ++ title ++ [CR, LF])

def CHttp.addContentLength (conn : CHttp) (contentlen : Int) : CHttp × Bool :=
  conn.addLine (ascii "Content-Length:" ++ intText contentlen ++ [CR, LF])

def CHttp.addContentType (conn : CHttp) : CHttp × Bool :=
  conn.addLine (ascii "Content-Type:text/html" ++ [CR, LF])

def CHttp.addLinger (conn : CHttp) : CHttp × Bool :=
  conn.addLine (ascii "Connection:" ++ ascii (if conn.linger then "keep-alive" else "close") ++ [CR, LF])

def CHttp.addBlankLine (conn : CHttp) : CHttp × Bool := conn.addLine [CR, LF]

def CHttp.addContent (conn : CHttp) (content : Bytes) : CHttp × Bool := conn.addLine content

/-- `first && second` on functions that leave their mark on the connection. -/
def CHttp.andThen (step : CHttp × Bool) (next : CHttp → CHttp × Bool) : CHttp × Bool :=
  if step.2 then next step.1 else step

def CHttp.addHeaders (conn : CHttp) (contentlen : Int) : CHttp × Bool :=
  CHttp.andThen (CHttp.andThen (CHttp.andThen (conn.addContentLength contentlen)
    CHttp.addLinger) CHttp.addContentType) CHttp.addBlankLine

def ok200Title : Bytes := ascii "OK"
def error400Title : Bytes := ascii "Bad Request"
def error400Form : Bytes := ascii "Your request has bad syntax or is inherently impossible to staisfy.\n"
def error403Title : Bytes := ascii "Forbidden"
def error403Form : Bytes := ascii "You do not have permission to get file form this server.\n"
def error404Title : Bytes := ascii "Not Found"
def error404Form : Bytes := ascii "The requested file was not found on this server.\n"
def error500Title : Bytes := ascii "Internal Error"
def error500Form : Bytes := ascii "There was an unusual problem serving the request file.\n"

/-- The three lines every error branch of `ParseWrite` consists of. -/
def CHttp.addError (conn : CHttp) (status : Nat) (title form : Bytes) : CHttp × Bool :=
  let conn := (conn.addStatusLine status title).1
  let conn := (conn.addHeaders (int32 form.length)).1
  conn.addContent form

/-- The two calls that write the head of a file's response. -/
def CHttp.addFileHeader (conn : CHttp) (size : Nat) : CHttp :=
  ((conn.addStatusLine 200 ok200Title).1.addHeaders (int32 size)).1

/-- Describe the written head and the mapped file to `Write`. -/
def CHttp.offerFile (conn : CHttp) (size : Nat) : CHttp :=
  { conn with
    iv0 := ⟨⟨.writeData, 0⟩, conn.writeIdx⟩
    iv1 := ⟨⟨.file conn.fileAddr, 0⟩, size⟩
    ivCount := 2
    dataLen := int32 (conn.writeIdx + size) }

/-- `mmap` of `length` bytes; it refuses an empty mapping. -/
def FileAnswer.mmap (answer : FileAnswer) (length : Nat) : FileAddr :=
  if length = 0 then .mapFailed else answer.mapping

def CHttp.parseWrite (conn : CHttp) (status : HttpRequestDecodeState) (answer : FileAnswer) : CHttp × Bool :=
  if status.isInvalid then conn.addError 400 error400Title error400Form
  else if status == .complete then
    match answer.stat with
    | none => conn.addError 404 error404Title error404Form
    | some stat =>
      let conn := { conn with fileStat := stat }
      if !stat.othersRead then conn.addError 403 error403Title error403Form
      else if stat.isDir then conn.addError 404 error404Title error404Form
      else
        let conn := { conn with fileAddr := answer.mmap stat.stSize }
        ((conn.addFileHeader stat.stSize).offerFile stat.stSize, true)
  else conn.addError 500 error500Title error500Form

/-- `HttpParse`, which a worker of the pool runs. -/
def CHttp.httpParseTask (conn : CHttp) (answer : FileAnswer) : Except StringFailure (CHttp × List Effect) := do
  let (conn, status) ← conn.parseRead answer.behind
  if status == .opened then .ok (conn, [conn.modFd .epollIn])
  else
    let (conn, ret) := conn.parseWrite status answer
    if !ret then .ok conn.closeHttp else .ok (conn, [conn.modFd .epollOut])

end WSlyh.Http
