import WSlyh.Libc

namespace WSlyh.Http

open Libc

inductive HttpRequestDecodeState
  | invalid | invalidMethod | invalidUri | invalidVersion | invalidHeader
  | start | method | beforeUri | inUri | beforeUriParamKey | uriParamKey
  | beforeUriParamValue | uriParamValue | beforeProtocol | protocol
  | beforeVersion | versionSplit | version
  | headerKey | headerBeforeColon | headerAfterColon | headerValue
  | whenCr | crLf | crLfCr | body | complete | opened
  deriving DecidableEq, Repr

/-- The five error states; the parsing loop, `parseRead` and `parseWrite` each list them. -/
def HttpRequestDecodeState.isInvalid : HttpRequestDecodeState → Bool
  | .invalid | .invalidMethod | .invalidUri | .invalidVersion | .invalidHeader => true
  | _ => false

/-- The states on which the parsing loop stops. -/
def HttpRequestDecodeState.isFinal (state : HttpRequestDecodeState) : Bool :=
  state.isInvalid || state == .complete

/-- `std::map<std::string, std::string>`: `insert` leaves a key that is present alone. -/
structure StringMap where
  entries : List (Bytes × Bytes) := []
  deriving DecidableEq, Repr

def StringMap.find? (map : StringMap) (key : Bytes) : Option Bytes := map.entries.lookup key

def StringMap.insert (map : StringMap) (key value : Bytes) : StringMap :=
  if (map.find? key).isSome then map else ⟨map.entries ++ [(key, value)]⟩

theorem StringMap.find?_insert (map : StringMap) (key value other : Bytes) :
    (map.insert key value).find? other =
      (map.find? other).or (if other = key then some value else none) := by
  unfold insert
  split
  · rename_i present
    by_cases same : other = key
    · obtain ⟨found, holds⟩ := Option.isSome_iff_exists.mp present
      simp [same, holds]
    · simp [same]
  · rename_i absent
    have lookup_append : (map.entries ++ [(key, value)]).lookup other =
        (map.entries.lookup other).or ([(key, value)].lookup other) := List.lookup_append ..
    simp only [find?, lookup_append]
    by_cases same : other = key
    · simp [same]
    · simp [same]

/-- How building a `std::string` from a bad range ends: the library throws, or the copy leaves
the memory of the process. -/
inductive StringFailure
  | nullConstruction | length | segfault
  deriving DecidableEq, Repr

/-- A token under construction; a pointer is an offset into the buffer of the call. -/
structure StringBuffer where
  pBegin : Option Nat := none
  pEnd : Option Nat := none
  deriving DecidableEq, Repr

/-- `std::string(m_pBegin, m_pEnd)`. Two null pointers make an empty string. -/
def StringBuffer.toString (buf : Bytes) (token : StringBuffer) : Except StringFailure Bytes :=
  match token.pBegin, token.pEnd with
  | none, none => .ok []
  | none, some _ => .error .nullConstruction
  | some _, none => .error .length
  | some first, some last => .ok ((buf.take last).drop first)

structure SHttpRequest where
  strMethod : Bytes := []
  strUrl : Bytes := []
  requestParams : StringMap := {}
  strProtocol : Bytes := []
  strVersion : Bytes := []
  headers : StringMap := {}
  strBody : Bytes := []
  nextPos : Nat := 0
  isOpen : Bool := false
  decodeState : HttpRequestDecodeState := .start
  deriving DecidableEq, Repr, Inhabited

def SHttpRequest.init (_ : SHttpRequest) : SHttpRequest := {}

/-- The local variables of `ParseInternal`, fresh in every call. -/
structure ParseLocals where
  method : StringBuffer := {}
  url : StringBuffer := {}
  requestParamKey : StringBuffer := {}
  requestParamValue : StringBuffer := {}
  protocol : StringBuffer := {}
  version : StringBuffer := {}
  headerKey : StringBuffer := {}
  headerValue : StringBuffer := {}
  bodyLength : Int := 0
  deriving DecidableEq, Repr

def contentLengthName : Bytes := ascii "Content-Length"

/-- `m_strBody.assign(p, bodyLength)`; the length converts to `size_t`, so a negative
one is longer than any string. The bytes are copied from the buffer and from what lies behind it. -/
def assignBody (memory : Bytes) (p : Nat) (bodyLength : Int) : Except StringFailure Bytes :=
  if bodyLength < 0 then .error .length
  else if p + bodyLength.toNat ≤ memory.length then .ok ((memory.drop p).take bodyLength.toNat)
  else .error .segfault

/-- One round of the loop of `ParseInternal`: the byte at `m_iNextPos` is taken and the
`switch` runs on it. `behind` is the memory behind the buffer, up to the first byte that
cannot be read. -/
def SHttpRequest.parseRound (buf : Bytes) (size : Nat) (behind : Bytes) (req : SHttpRequest) (loc : ParseLocals) :
    Except StringFailure (SHttpRequest × ParseLocals) :=
  let p := req.nextPos
  let ch := byteAt buf p
  let scanPos := p
  let next (state : HttpRequestDecodeState) : SHttpRequest :=
    { req with nextPos := p + 1, decodeState := state }
  match req.decodeState with
  | .start =>
    if ch == CR || ch == LF || isblank ch then .ok (next .start, loc)
    else if isupper ch then .ok (next .method, { loc with method := { loc.method with pBegin := some p } })
    else .ok (next .invalid, loc)
  | .method =>
    if isupper ch then .ok (next .method, loc)
    else if isblank ch then do
      let method := { loc.method with pEnd := some p }
      let text ← method.toString buf
      .ok ({ next .beforeUri with strMethod := text }, { loc with method })
    else .ok (next .invalidMethod, loc)
  | .beforeUri =>
    if ch == 47 then .ok (next .inUri, { loc with url := { loc.url with pBegin := some p } })
    else if isblank ch then .ok (next .beforeUri, loc)
    else .ok (next .invalid, loc)
  | .inUri =>
    if ch == 63 then do
      let url := { loc.url with pEnd := some p }
      let text ← url.toString buf
      .ok ({ next .beforeUriParamKey with strUrl := text }, { loc with url })
    else if isblank ch then do
      let url := { loc.url with pEnd := some p }
      let text ← url.toString buf
      .ok ({ next .beforeProtocol with strUrl := text }, { loc with url })
    else .ok (next .inUri, loc)
  | .beforeUriParamKey =>
    if isblank ch || ch == LF || ch == CR then .ok (next .invalidUri, loc)
    else .ok (next .uriParamKey,
      { loc with requestParamKey := { loc.requestParamKey with pBegin := some p } })
  | .uriParamKey =>
    if ch == 61 then .ok (next .beforeUriParamValue,
      { loc with requestParamKey := { loc.requestParamKey with pEnd := some p } })
    else if isblank ch then .ok (next .invalidUri, loc)
    else .ok (next .uriParamKey, loc)
  | .beforeUriParamValue =>
    if isblank ch || ch == LF || ch == CR then .ok (next .invalidUri, loc)
    else .ok (next .uriParamValue,
      { loc with requestParamValue := { loc.requestParamValue with pBegin := some p } })
  | .uriParamValue =>
    if ch == 38 then do
      let requestParamValue := { loc.requestParamValue with pEnd := some p }
      let key ← loc.requestParamKey.toString buf
      let value ← requestParamValue.toString buf
      .ok ({ next .beforeUriParamKey with requestParams := req.requestParams.insert key value },
        { loc with requestParamValue })
    else if isblank ch then do
      let requestParamValue := { loc.requestParamValue with pEnd := some p }
      let key ← loc.requestParamKey.toString buf
      let value ← requestParamValue.toString buf
      .ok ({ next .beforeProtocol with requestParams := req.requestParams.insert key value },
        { loc with requestParamValue })
    else .ok (next .uriParamValue, loc)
  | .beforeProtocol =>
    if isblank ch then .ok (next .beforeProtocol, loc)
    else .ok (next .protocol, { loc with protocol := { loc.protocol with pBegin := some p } })
  | .protocol =>
    if ch == 47 then do
      let protocol := { loc.protocol with pEnd := some p }
      let text ← protocol.toString buf
      .ok ({ next .beforeVersion with strProtocol := text }, { loc with protocol })
    else .ok (next .protocol, loc)
  | .beforeVersion =>
    if isdigit ch then .ok (next .version, { loc with version := { loc.version with pBegin := some p } })
    else .ok (next .invalidVersion, loc)
  | .version =>
    if ch == CR then do
      let version := { loc.version with pEnd := some p }
      let text ← version.toString buf
      .ok ({ next .whenCr with strVersion := text }, { loc with version })
    else if ch == 46 then .ok (next .versionSplit, loc)
    else if isdigit ch then .ok (next .version, loc)
    else .ok (next .invalidVersion, loc)
  | .versionSplit =>
    if isdigit ch then .ok (next .version, loc) else .ok (next .invalidVersion, loc)
  | .headerKey =>
    if isblank ch then .ok (next .headerBeforeColon,
      { loc with headerKey := { loc.headerKey with pEnd := some p } })
    else if ch == 58 then .ok (next .headerAfterColon,
      { loc with headerKey := { loc.headerKey with pEnd := some p } })
    else .ok (next .headerKey, loc)
  | .headerBeforeColon =>
    if isblank ch then .ok (next .headerBeforeColon, loc)
    else if ch == 58 then .ok (next .headerAfterColon, loc)
    else .ok (next .invalidHeader, loc)
  | .headerAfterColon =>
    if isblank ch then .ok (next .headerAfterColon, loc)
    else .ok (next .headerValue, { loc with headerValue := { loc.headerValue with pBegin := some p } })
  | .headerValue =>
    if ch == CR then do
      let headerValue := { loc.headerValue with pEnd := some p }
      let key ← loc.headerKey.toString buf
      let value ← headerValue.toString buf
      .ok ({ next .whenCr with headers := req.headers.insert key value }, { loc with headerValue })
    else .ok (next .headerValue, loc)
  | .whenCr =>
    if ch == LF then .ok (next .crLf, loc) else .ok (next .invalid, loc)
  | .crLf =>
    if ch == CR then .ok (next .crLfCr, loc)
    else if isblank ch then .ok (next .invalid, loc)
    else .ok (next .headerKey, { loc with headerKey := { loc.headerKey with pBegin := some p } })
  | .crLfCr =>
    if ch == LF then
      match req.headers.find? contentLengthName with
      | some text =>
        let bodyLength := atoi text
        if bodyLength > 0 then .ok (next .body, { loc with bodyLength })
        else .ok (next .complete, { loc with bodyLength })
      | none =>
        if scanPos < size then .ok (next .body, { loc with bodyLength := size - scanPos })
        else .ok (next .complete, loc)
    else .ok (next .invalidHeader, loc)
  | .body => do
    let text ← assignBody (buf ++ behind) p loc.bodyLength
    .ok ({ next .complete with strBody := text }, loc)
  | state => .ok (next state, loc)

/-- The loop of `ParseInternal`. Every round moves `m_iNextPos` one byte on, so
`size - m_iNextPos` rounds are all it can make. -/
def SHttpRequest.parseLoop (buf : Bytes) (size : Nat) (behind : Bytes) :
    Nat → SHttpRequest → ParseLocals → Except StringFailure (SHttpRequest × ParseLocals)
  | 0, req, loc => .ok (req, loc)
  | rounds + 1, req, loc =>
    if !req.decodeState.isFinal && req.nextPos < size then do
      let (req, loc) ← req.parseRound buf size behind loc
      parseLoop buf size behind rounds req loc
    else .ok (req, loc)

/-- `ParseInternal(buf, size)`: the locals start out null, whatever an earlier call held. -/
def SHttpRequest.parseInternal (req : SHttpRequest) (buf : Bytes) (size : Nat) (behind : Bytes) :
    Except StringFailure SHttpRequest := do
  let (req, _) ← req.parseLoop buf size behind (size - req.nextPos) {}
  .ok req

def SHttpRequest.getLen (req : SHttpRequest) : Nat := req.nextPos

def SHttpRequest.getStatus (req : SHttpRequest) : HttpRequestDecodeState := req.decodeState

end WSlyh.Http
