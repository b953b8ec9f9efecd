import WSlyh.Http.AcceptedScan

/-! Rendering a request head and parsing it gives its parts back. -/

namespace WSlyh.Http

open Libc

/-- A word is a token wherever its first byte opens one and the others are taken. -/
def Word.token {before state : HttpRequestDecodeState} (word : Word allowed)
    (opens : ∀ ch ∈ word.bytes.head?, before.opens ch = some state)
    (takes : ∀ ch, allowed ch = true → state.takes ch = true) : Token before state where
  first := word.bytes.head word.nonempty
  rest := word.bytes.tail
  opens := opens _ (List.head_mem_head? word.nonempty)
  takes := by
    intro ch member
    apply takes
    exact word.allowed ch (List.mem_of_mem_tail member)

@[simp] theorem Word.token_bytes {before state : HttpRequestDecodeState} (word : Word allowed)
    (opens : ∀ ch ∈ word.bytes.head?, before.opens ch = some state)
    (takes : ∀ ch, allowed ch = true → state.takes ch = true) : (word.token opens takes).bytes = word.bytes :=
  List.cons_head_tail word.nonempty

theorem paramKey_opens (allowed : isParamKey ch = true) :
    HttpRequestDecodeState.beforeUriParamKey.opens ch = some .uriParamKey := by
  simp only [isParamKey, HttpRequestDecodeState.opens] at allowed ⊢
  grind

theorem paramKey_takes (allowed : isParamKey ch = true) : HttpRequestDecodeState.uriParamKey.takes ch = true := by
  simp only [isParamKey, isSeparator, HttpRequestDecodeState.takes] at allowed ⊢
  grind

theorem paramValue_opens (allowed : isParamValue ch = true) :
    HttpRequestDecodeState.beforeUriParamValue.opens ch = some .uriParamValue := by
  simp only [isParamValue, HttpRequestDecodeState.opens] at allowed ⊢
  grind

theorem paramValue_takes (allowed : isParamValue ch = true) :
    HttpRequestDecodeState.uriParamValue.takes ch = true := by
  simp only [isParamValue, isSeparator, HttpRequestDecodeState.takes] at allowed ⊢
  grind

def RequestParam.accepted (param : RequestParam) : AcceptedParam where
  key := param.key.token (fun ch member => paramKey_opens (param.key.allowed ch (List.mem_of_mem_head? member)))
    fun _ => paramKey_takes
  value := param.value.token
    (fun ch member => paramValue_opens (param.value.allowed ch (List.mem_of_mem_head? member)))
    fun _ => paramValue_takes

theorem headerName_opens (allowed : isHeaderName ch = true) :
    HttpRequestDecodeState.crLf.opens ch = some .headerKey := by
  simp only [isHeaderName, isSeparator, HttpRequestDecodeState.opens] at allowed ⊢
  grind

theorem headerName_takes (allowed : isHeaderName ch = true) : HttpRequestDecodeState.headerKey.takes ch = true := by
  simp only [isHeaderName, isSeparator, HttpRequestDecodeState.takes] at allowed ⊢
  grind

theorem headerValue_takes (allowed : isHeaderValue ch = true) :
    HttpRequestDecodeState.headerValue.takes ch = true := allowed

theorem RequestHeader.value_opens (header : RequestHeader) (member : ch ∈ header.value.bytes.head?) :
    HttpRequestDecodeState.headerAfterColon.opens ch = some .headerValue := by
  have plain := header.plain ch member
  simp [HttpRequestDecodeState.opens, plain]

def RequestHeader.accepted (header : RequestHeader) : AcceptedHeader where
  name := header.name.token (fun ch member => headerName_opens (header.name.allowed ch (List.mem_of_mem_head? member)))
    fun _ => headerName_takes
  beforeColon := header.beforeColon
  afterColon := header.afterColon
  value := header.value.token (fun _ => header.value_opens) fun _ => headerValue_takes

theorem path_takes (allowed : isPath ch = true) : HttpRequestDecodeState.inUri.takes ch = true := by
  simp only [isPath, isSeparator, HttpRequestDecodeState.takes] at allowed ⊢
  grind

theorem method_opens (upper : isupper ch = true) : HttpRequestDecodeState.start.opens ch = some .method := if_pos upper

theorem method_takes (upper : isupper ch = true) : HttpRequestDecodeState.method.takes ch = true := upper

theorem protocol_opens (allowed : isProtocol ch = true) :
    HttpRequestDecodeState.beforeProtocol.opens ch = some .protocol := by
  simp only [isProtocol, isSeparator, HttpRequestDecodeState.opens] at allowed ⊢
  grind

theorem protocol_takes (allowed : isProtocol ch = true) : HttpRequestDecodeState.protocol.takes ch = true := by
  simp only [isProtocol, HttpRequestDecodeState.takes] at allowed ⊢
  grind

/-- A path is a token together with the slash before it. -/
def pathToken (path : Run isPath) : Token .beforeUri .inUri where
  first := 47
  rest := path.bytes
  opens := rfl
  takes ch member := path_takes (path.allowed ch member)

@[simp] theorem pathToken_bytes (path : Run isPath) : (pathToken path).bytes = 47 :: path.bytes := rfl

/-- The request line up to the slash of the version. -/
def RequestText.accepted (text : RequestText) : AcceptedLine where
  leading := text.leading
  method := text.method.token (fun ch member => method_opens (text.method.allowed ch (List.mem_of_mem_head? member)))
    fun _ => method_takes
  beforeUri := text.beforeUri
  url := pathToken text.path
  params := text.params.map RequestParam.accepted
  beforeProtocol := text.beforeProtocol
  protocol := text.protocol.token
    (fun ch member => protocol_opens (text.protocol.allowed ch (List.mem_of_mem_head? member))) fun _ => protocol_takes

@[simp] theorem RequestParam.accepted_entry (param : RequestParam) : param.accepted.entry = param.entry := by
  simp [accepted, entry, AcceptedParam.entry]

@[simp] theorem RequestParam.accepted_render (param : RequestParam) : param.accepted.render = param.render := by
  simp [accepted, render, AcceptedParam.render]

@[simp] theorem RequestHeader.accepted_entry (header : RequestHeader) : header.accepted.entry = header.entry := by
  simp [accepted, entry, AcceptedHeader.entry]

@[simp] theorem RequestHeader.accepted_render (header : RequestHeader) : header.accepted.render = header.render := by
  simp [accepted, render, AcceptedHeader.render]

theorem renderAccepted_map (params : List RequestParam) :
    renderAccepted (params.map RequestParam.accepted) = renderParams params := by
  cases params with
  | nil => rfl
  | cons param params => simp [renderAccepted, renderParams, List.flatMap_map]

theorem RequestText.accepted_render (text : RequestText) : text.accepted.render =
    text.leading.bytes ++ text.method.bytes ++ text.beforeUri.bytes ++ text.url ++
      (renderParams text.params ++ text.beforeProtocol.bytes) ++ (text.protocol.bytes ++ [47]) := by
  simp [accepted, AcceptedLine.render, renderAccepted_map, url]

namespace HeadScan

variable {scan : HeadScan}

/-- The parts of the version behind the first one. -/
theorem read_moreDigits (state : scan.decodeState = .version) (more : List (Word isdigit)) :
    scan.read (more.flatMap fun digits => 46 :: digits.bytes) =
      { scan with nextPos := 0, token := scan.token ++ more.flatMap fun digits => 46 :: digits.bytes } := by
  induction more generalizing scan with
  | nil => simp [read]
  | cons digits more ih =>
    obtain ⟨first, rest, split⟩ := List.exists_cons_of_ne_nil digits.nonempty
    have digit : isdigit first = true := digits.allowed first (by simp [split])
    have dotted : scan.read [46] = { scan with
        decodeState := .versionSplit
        nextPos := 0
        token := scan.token ++ [46] } := by
      simp [read, feed, state, CR]
    have opened : ({ scan with
        decodeState := .versionSplit
        nextPos := 0
        token := scan.token ++ [46] } : HeadScan).read [first] =
          { scan with nextPos := 0, token := scan.token ++ [46] ++ [first] } := by
      simp [read, feed, digit, state]
    have taken : ∀ ch ∈ rest, scan.decodeState.takes ch = true := by
      intro ch member
      rw [state]
      exact digits.allowed ch (by simp [split, member])
    have read_rest : ({ scan with nextPos := 0, token := scan.token ++ [46] ++ [first] } : HeadScan).read rest = _ :=
      read_takes taken
    have onward := @ih { scan with nextPos := 0, token := scan.token ++ [46] ++ [first] ++ rest } state
    rw [List.flatMap_cons, List.cons_append, split, List.cons_append, read_cons, dotted, read_cons,
      opened, read_append,
      read_rest, onward]
    simp

theorem read_version (state : scan.decodeState = .beforeVersion) (version : RequestVersion) :
    scan.read version.render = { scan with decodeState := .version, nextPos := 0, token := version.render } := by
  have first : ∀ ch ∈ version.digits.bytes.head?, scan.decodeState.opens ch = some .version := by
    intro ch member
    rw [state]
    exact if_pos (version.digits.allowed ch (List.mem_of_mem_head? member))
  have takes (ch : UInt8) (digit : isdigit ch = true) : HttpRequestDecodeState.version.takes ch = true := digit
  rw [RequestVersion.render, read_append, read_word version.digits first takes, read_moreDigits rfl]

theorem read_lines (text : RequestText) :
    ∃ key token, ({} : HeadScan).read text.lines = {
      decodeState := .crLf
      strMethod := text.method.bytes
      strUrl := text.url
      requestParams := StringMap.insertAll {} (text.params.map RequestParam.entry)
      strProtocol := text.protocol.bytes
      strVersion := text.version.render
      headers := StringMap.insertAll {} (text.headers.map RequestHeader.entry)
      key
      token } := by
  obtain ⟨key, token, line, -⟩ := read_line text.accepted
  have shape : text.lines = text.accepted.render ++ (text.version.render ++ ([CR, LF] ++
      (text.headers.map RequestHeader.accepted).flatMap AcceptedHeader.render)) := by
    simp [RequestText.lines, RequestText.accepted_render, List.flatMap_map]
  have params : text.accepted.params.map AcceptedParam.entry = text.params.map RequestParam.entry := by
    simp [RequestText.accepted]
  have parts : text.accepted.method.bytes = text.method.bytes ∧ text.accepted.url.bytes = text.url ∧
      text.accepted.protocol.bytes = text.protocol.bytes := by
    simp [RequestText.accepted, RequestText.url]
  rw [params, parts.1, parts.2.1, parts.2.2] at line
  have version := @read_version {
    decodeState := .beforeVersion
    strMethod := text.method.bytes
    strUrl := text.url
    requestParams := StringMap.insertAll {} (text.params.map RequestParam.entry)
    strProtocol := text.protocol.bytes
    key
    token } rfl text.version
  have lineEnd : ({
      decodeState := .version
      strMethod := text.method.bytes
      strUrl := text.url
      requestParams := StringMap.insertAll {} (text.params.map RequestParam.entry)
      strProtocol := text.protocol.bytes
      key
      token := text.version.render } : HeadScan).read [CR, LF] = {
      decodeState := .crLf
      strMethod := text.method.bytes
      strUrl := text.url
      requestParams := StringMap.insertAll {} (text.params.map RequestParam.entry)
      strProtocol := text.protocol.bytes
      strVersion := text.version.render
      key
      token := text.version.render } := rfl
  obtain ⟨key', token', headers, -⟩ := @read_headers {
    decodeState := .crLf
    strMethod := text.method.bytes
    strUrl := text.url
    requestParams := StringMap.insertAll {} (text.params.map RequestParam.entry)
    strProtocol := text.protocol.bytes
    strVersion := text.version.render
    key
    token := text.version.render } rfl (text.headers.map RequestHeader.accepted)
  have entries : (text.headers.map RequestHeader.accepted).map AcceptedHeader.entry =
    text.headers.map RequestHeader.entry := by
    simp
  refine ⟨key', token', ?_⟩
  dsimp only at version headers
  rw [shape, read_append, line, read_append, version, read_append, lineEnd, headers, entries]

/-- What the scan makes of a whole head. -/
theorem of_render (text : RequestText) :
    (HeadScan.of text.render).toParsedHead = {
      decodeState :=
        if ((text.headers.map RequestHeader.entry).lookup contentLengthName).any fun value => atoi value ≤ 0
        then .complete else .body
      nextPos := text.render.length
      strMethod := text.method.bytes
      strUrl := text.url
      requestParams := StringMap.insertAll {} (text.params.map RequestParam.entry)
      strProtocol := text.protocol.bytes
      strVersion := text.version.render
      headers := StringMap.insertAll {} (text.headers.map RequestHeader.entry) } := by
  obtain ⟨key, token, lines⟩ := read_lines text
  have state : (HeadScan.of text.lines).decodeState = .crLf := congrArg (·.decodeState) lines
  have position : (HeadScan.of text.lines).nextPos = text.lines.length := by
    rcases of_nextPos text.lines with final | length
    · rw [state] at final
      cases final
    · exact length
  have same : HeadScan.of text.lines = { ({} : HeadScan).read text.lines with nextPos := text.lines.length } := by
    rw [← position]
    rfl
  have declared : (StringMap.insertAll {} (text.headers.map RequestHeader.entry)).find? contentLengthName =
      (text.headers.map RequestHeader.entry).lookup contentLengthName :=
    StringMap.find?_insertAll ..
  have whole : HeadScan.of text.render = ((HeadScan.of text.lines).feed CR).feed LF := by
    rw [RequestText.render, of_append]
    rfl
  have size : text.render.length = text.lines.length + 2 := by simp [RequestText.render]
  rw [whole, feed_blankLine state, same, lines, size]
  simp only [declared]

end HeadScan

namespace RequestText

theorem render_snoc (text : RequestText) : text.render = (text.lines ++ [CR]) ++ [LF] := by simp [render]

theorem crLfCr_lines (text : RequestText) : (HeadScan.of (text.lines ++ [CR])).decodeState = .crLfCr := by
  obtain ⟨key, token, lines⟩ := HeadScan.read_lines text
  have state : (HeadScan.of text.lines).decodeState = .crLf := congrArg (·.decodeState) lines
  rw [HeadScan.of_snoc, HeadScan.feed]
  simp only [state]
  rfl

/-- A head has no body to copy. -/
theorem bodyInside_part {text : RequestText} (before : part <+: text.render) (behind : Bytes) :
    BodyInside part part.length behind := by
  rw [render_snoc] at before
  exact BodyInside.of_front text.crLfCr_lines before behind

end RequestText

/-- One call on a rendered head from a fresh parser takes all of it, gives each part back,
keeps the first value of each key, and waits for a body unless the length says otherwise. -/
theorem parseInternal_render (text : RequestText) (behind : Bytes) :
    ∃ req, ({} : SHttpRequest).parseInternal text.render text.render.length behind = .ok req ∧
      req.nextPos = text.render.length ∧ req.strMethod = text.method.bytes ∧ req.strUrl = text.url ∧
      req.strProtocol = text.protocol.bytes ∧ req.strVersion = text.version.render ∧
      (∀ key, req.requestParams.find? key = (text.params.map RequestParam.entry).lookup key) ∧
      (∀ name, req.headers.find? name = (text.headers.map RequestHeader.entry).lookup name) ∧
      req.decodeState =
        if ((text.headers.map RequestHeader.entry).lookup contentLengthName).any fun value => atoi value ≤ 0
        then .complete else .body := by
  obtain ⟨req, done, head⟩ := SHttpRequest.parseInternal_whole (RequestText.bodyInside_part List.prefix_rfl behind)
  rw [HeadScan.of_render] at head
  refine ⟨req, done, congrArg ParsedHead.nextPos head, congrArg ParsedHead.strMethod head,
    congrArg ParsedHead.strUrl head, congrArg ParsedHead.strProtocol head, congrArg ParsedHead.strVersion head, ?_, ?_,
    congrArg ParsedHead.decodeState head⟩
  · intro key
    have params : req.requestParams = _ := congrArg ParsedHead.requestParams head
    rw [params]
    exact StringMap.find?_insertAll ..
  · intro name
    have headers : req.headers = _ := congrArg ParsedHead.headers head
    rw [headers]
    exact StringMap.find?_insertAll ..

end WSlyh.Http
