import WSlyh.Http.RequestLine
import WSlyh.Http.RoundTrip
import WSlyh.Lib.Splitting

/-! The heads that the parser accepts, as a grammar: what it derives is what comes past the blank line, and it
derives each text in one way. -/

namespace WSlyh.Http

open Libc Lib HttpRequestDecodeState

/-- A request line with its version, the headers and the blank line. -/
structure AcceptedHead where
  line : AcceptedLine
  version : RequestVersion
  headers : List AcceptedHeader

/-- The lines of the head, the blank one aside. -/
def AcceptedHead.lines (head : AcceptedHead) : Bytes :=
  head.line.render ++ (head.version.render ++ ([CR, LF] ++ head.headers.flatMap AcceptedHeader.render))

def AcceptedHead.render (head : AcceptedHead) : Bytes := head.lines ++ [CR, LF]

/-- The request holds the tokens of the head. -/
structure AcceptedHead.StoredIn (head : AcceptedHead) (req : SHttpRequest) : Prop where
  method : req.strMethod = head.line.method.bytes
  line : head.line.StoredIn req
  version : req.strVersion = head.version.render
  headers : req.headers = StringMap.insertAll {} (head.headers.map AcceptedHeader.entry)

/-- What the text says of its request is what the grammar says, and it says so in one way. -/
structure Derived (bytes : Bytes) (req : SHttpRequest) : Prop where
  accepts : req.decodeState.pastHead = true ↔ ∃ (head : AcceptedHead) (rest : Bytes), bytes = head.render ++ rest
  stored : ∀ (head : AcceptedHead) (rest : Bytes), bytes = head.render ++ rest → head.StoredIn req
  unique : ∀ (head head' : AcceptedHead) (rest rest' : Bytes), bytes = head.render ++ rest →
    bytes = head'.render ++ rest' → head = head' ∧ rest = rest'

section Version

variable {bytes : Bytes} {state : HttpRequestDecodeState}

theorem version_end {ch : UInt8} (ends : isdigit ch = false) :
    ch = CR ∧ HttpRequestDecodeState.version.after ch = .whenCr ∨
      ch = 46 ∧ HttpRequestDecodeState.version.after ch = .versionSplit ∨
      (HttpRequestDecodeState.version.after ch).isInvalid = true := by
  simp only [after, HeadScan.feed]
  grind [isInvalid]

theorem digit_opens {ch : UInt8} (state : HttpRequestDecodeState)
    (starts : state = .beforeVersion ∨ state = .versionSplit) :
    isdigit ch = true ∧ state.after ch = .version ∨ (state.after ch).isInvalid = true := by
  rcases starts with rfl | rfl <;> simp only [after, HeadScan.feed] <;> grind [isInvalid]

/-- Digits, and the parts behind the dots. -/
theorem exists_digits (starts : state = .beforeVersion ∨ state = .versionSplit)
    (passes : (state.afterAll bytes).pastHead = true) :
    ∃ (version : RequestVersion) (rest : Bytes), bytes = version.render ++ [CR, LF] ++ rest ∧
      (HttpRequestDecodeState.crLf.afterAll rest).pastHead = true := by
  induction total : bytes.length using Nat.strongRecOn generalizing bytes state with
  | ind size ih =>
    have notYet : state.pastHead = false := by rcases starts with rfl | rfl <;> rfl
    obtain ⟨first, behind, rfl, started⟩ := exists_next passes notYet
    rcases @digit_opens first state starts with ⟨digit, after⟩ | invalid
    · rw [after] at started
      obtain ⟨run, rest, rfl, ends⟩ := exists_run isdigit behind
      have taken : ∀ ch ∈ run.bytes, HttpRequestDecodeState.version.takes ch = true := run.allowed
      rw [afterAll_append, afterAll_takes taken] at started
      obtain ⟨ch, rest, rfl, ended⟩ := exists_next started rfl
      have digits : ∃ word : Word isdigit, word.bytes = first :: run.bytes := by
        refine ⟨⟨⟨first :: run.bytes, fun other member => ?_⟩, List.cons_ne_nil _ _⟩, rfl⟩
        rcases List.mem_cons.mp member with rfl | later
        · exact digit
        · exact run.allowed other later
      obtain ⟨word, text⟩ := digits
      rcases version_end (ends ch rfl) with ⟨rfl, after⟩ | ⟨rfl, after⟩ | invalid
      · rw [after] at ended
        obtain ⟨feed, rest, rfl, broken⟩ := exists_next ended rfl
        rcases @whenCr_next feed with rfl | invalid
        · exact ⟨⟨word, []⟩, rest, by simp [RequestVersion.render, text], broken⟩
        · rw [not_invalid pastHead_rejects broken] at invalid
          cases invalid
      · rw [after] at ended
        have shorter : rest.length < size := by
          rw [← total]
          simp
          omega
        obtain ⟨version, rest, rfl, onward⟩ := ih rest.length shorter (.inr rfl) ended rfl
        refine ⟨⟨word, version.digits :: version.more⟩, rest, ?_, onward⟩
        simp [RequestVersion.render, text]
      · rw [not_invalid pastHead_rejects ended] at invalid
        cases invalid
    · rw [not_invalid pastHead_rejects started] at invalid
      cases invalid

end Version

section Unambiguous

variable {before state : HttpRequestDecodeState} {allowed kind : UInt8 → Bool} {ch : UInt8} {rest : Bytes}

/-- What stands there does not start with a byte of this kind. -/
def Stops (kind : UInt8 → Bool) (rest : Bytes) : Prop := ∀ ch ∈ rest.head?, kind ch = false

/-- What stands there starts with a blank. -/
def Blank (rest : Bytes) : Prop := ∃ ch ∈ rest.head?, isblank ch = true

/-- What stands there starts with the end of a line. -/
def Ended (rest : Bytes) : Prop := rest.head? = some CR

theorem stops_cons (other : kind ch = false) (rest : Bytes) : Stops kind (ch :: rest) := by
  rintro _ ⟨⟩
  exact other

theorem stops_gap (gap : Word isblank) (stops : ∀ ch, isblank ch = true → kind ch = false) (rest : Bytes) :
    Stops kind (gap.bytes ++ rest) := by
  intro ch member
  exact stops ch (blank_head gap rest ch member)

/-- What may be skipped before a token does not open it. -/
theorem stops_token (token : Token before state) (rest : Bytes) : Stops before.skips (token.bytes ++ rest) := by
  apply stops_cons
  have opens := token.opens
  cases before <;> simp only [HttpRequestDecodeState.opens, HttpRequestDecodeState.skips, reduceCtorEq] at opens ⊢ <;>
    grind [isupper, isblank, isSeparator, CR, LF]

theorem splits_run (kind : UInt8 → Bool) : Splits (Stops kind) (@Run.bytes kind) := by
  intro run run' rest rest' ends ends' same
  have cut := span_front run.allowed ends
  have cut' := span_front run'.allowed ends'
  rw [same] at cut
  have bytes : run.bytes = run'.bytes := cut.1.symm.trans cut'.1
  refine ⟨?_, cut.2.symm.trans cut'.2⟩
  cases run
  cases run'
  cases bytes
  rfl

theorem splits_word (kind : UInt8 → Bool) : Splits (Stops kind) fun word : Word kind => word.bytes := by
  apply (splits_run kind).comap Word.toRun
  rintro ⟨run, _⟩ ⟨run', _⟩ ⟨⟩
  rfl

theorem splits_token : Splits (Stops state.takes) (@Token.bytes before state) := by
  rintro ⟨first, more, opens, takes⟩ ⟨first', more', opens', takes'⟩ rest rest' ends ends' same
  obtain ⟨rfl, behind⟩ := List.cons.inj same
  have run := @splits_run state.takes ⟨more, takes⟩ ⟨more', takes'⟩ rest rest' ends ends' behind
  obtain ⟨⟨⟩, rfl⟩ := run
  exact ⟨rfl, rfl⟩

theorem splits_param : Splits (Stops HttpRequestDecodeState.uriParamValue.takes) AcceptedParam.render := by
  have value := (@splits_token .beforeUriParamValue .uriParamValue).led [61]
  have both := (@splits_token .beforeUriParamKey .uriParamKey).pair value fun _ _ _ => stops_cons rfl _
  apply both.comap fun param : AcceptedParam => (param.key, param.value)
  rintro ⟨key, value⟩ ⟨key', value'⟩ ⟨⟩
  rfl

theorem splits_params : Splits Blank renderAccepted := by
  have others : Splits Blank fun params : List AcceptedParam => params.flatMap fun param => [38] ++ param.render := by
    apply (splits_param.led [38]).many
    · exact fun _ _ => stops_cons rfl _
    · rintro rest ⟨ch, first, blank⟩ ch' first'
      obtain rfl := Option.some.inj (first.symm.trans first')
      simp [HttpRequestDecodeState.takes, blank]
    · rintro param rest ⟨_, ⟨⟩, blank⟩
      cases blank
  have goesOn (params : List AcceptedParam) (rest : Bytes) (ends : Blank rest) :
      Stops HttpRequestDecodeState.uriParamValue.takes
        ((params.flatMap fun param => [38] ++ param.render) ++ rest) := by
    cases params with
    | nil =>
      obtain ⟨ch, first, blank⟩ := ends
      intro ch' first'
      obtain rfl := Option.some.inj (first.symm.trans first')
      simp [HttpRequestDecodeState.takes, blank]
    | cons param params => exact stops_cons rfl _
  have query := (splits_param.pair others goesOn).led [63]
  intro params params' rest rest' ends ends' same
  cases params with
  | nil =>
    cases params' with
    | nil => exact ⟨rfl, same⟩
    | cons param' params' =>
      obtain ⟨ch, first, blank⟩ := ends
      obtain rfl : rest = _ := same
      cases first
      cases blank
  | cons param params =>
    cases params' with
    | nil =>
      obtain ⟨ch, first, blank⟩ := ends'
      obtain rfl : _ = rest' := same
      cases first
      cases blank
    | cons param' params' =>
      obtain ⟨⟨⟩, rest⟩ := @query (param, params) (param', params') _ _ ends ends' same
      exact ⟨rfl, rest⟩

theorem splits_line : Splits (fun _ => True) AcceptedLine.render := by
  have protocol := (@splits_token .beforeProtocol .protocol).marked [47] fun rest (_ : True) => stops_cons rfl _
  have query := splits_params.pair (splits_word isblank) fun gap rest _ => by
    obtain ⟨ch, more, split⟩ := List.exists_cons_of_ne_nil gap.nonempty
    rw [split]
    exact ⟨ch, rfl, gap.allowed ch (by simp [split])⟩
  have behindUrl := query.pair protocol fun protocol rest _ => by
    rw [List.append_assoc]
    exact stops_token protocol _
  have target := (@splits_token .beforeUri .inUri).pair behindUrl fun parts rest _ => by
    obtain ⟨⟨params, gap⟩, protocol⟩ := parts
    cases params with
    | nil =>
      dsimp only
      rw [renderAccepted, List.nil_append, List.append_assoc]
      exact stops_gap gap (fun ch blank => by simp [HttpRequestDecodeState.takes, blank]) _
    | cons param params => exact stops_cons rfl _
  have located := (splits_word isblank).pair target fun parts rest _ => by
    rw [List.append_assoc]
    exact stops_token parts.1 _
  have named := (@splits_token .start .method).pair located fun parts rest _ => by
    rw [List.append_assoc]
    exact stops_gap parts.1 (fun ch blank => not_upper_of_blank blank) _
  have whole := (splits_run isSeparator).pair named fun parts rest _ => by
    rw [List.append_assoc]
    exact stops_token parts.1 _
  have shape : AcceptedLine.render = fun line => line.leading.bytes ++ (line.method.bytes ++ (line.beforeUri.bytes ++
      (line.url.bytes ++ ((renderAccepted line.params ++ line.beforeProtocol.bytes) ++
        (line.protocol.bytes ++ [47]))))) := by
    funext line
    simp [AcceptedLine.render]
  rw [shape]
  apply whole.comap fun line : AcceptedLine =>
    (line.leading, line.method, line.beforeUri, line.url, (line.params, line.beforeProtocol), line.protocol)
  rintro ⟨⟩ ⟨⟩ ⟨⟩
  rfl

theorem splits_version : Splits Ended RequestVersion.render := by
  have stops (rest : Bytes) (ends : Ended rest) : Stops isdigit rest := by
    intro ch first
    obtain rfl := Option.some.inj (ends.symm.trans first)
    rfl
  have more : Splits Ended fun words : List (Word isdigit) => words.flatMap fun digits => [46] ++ digits.bytes :=
    ((splits_word isdigit).led [46]).many (fun _ _ => stops_cons rfl _) stops (by rintro digits rest ⟨⟩)
  have goesOn (words : List (Word isdigit)) (rest : Bytes) (ends : Ended rest) :
      Stops isdigit ((words.flatMap fun digits => [46] ++ digits.bytes) ++ rest) := by
    cases words with
    | nil => exact stops rest ends
    | cons digits words => exact stops_cons rfl _
  apply ((splits_word isdigit).pair more goesOn).comap fun version : RequestVersion => (version.digits, version.more)
  rintro ⟨⟩ ⟨⟩ ⟨⟩
  rfl

theorem splits_header : Splits (fun _ => True) AcceptedHeader.render := by
  have value := (@splits_token .headerAfterColon .headerValue).marked [CR, LF] fun rest (_ : True) => stops_cons rfl _
  have assigned := ((splits_run isblank).pair value fun value rest _ => by
    rw [List.append_assoc]
    exact stops_token value _).led [58]
  have colon := (splits_run isblank).pair assigned fun parts rest _ => stops_cons rfl _
  have whole := (@splits_token .crLf .headerKey).pair colon fun parts rest _ => by
    rw [List.append_assoc]
    cases split : parts.1.bytes with
    | nil => exact stops_cons rfl _
    | cons ch more =>
      have blank := parts.1.allowed ch (by simp [split])
      exact stops_cons (by simp [HttpRequestDecodeState.takes, blank]) _
  have shape : AcceptedHeader.render = fun header => header.name.bytes ++ (header.beforeColon.bytes ++ ([58] ++
      (header.afterColon.bytes ++ (header.value.bytes ++ [CR, LF])))) := by
    funext header
    simp [AcceptedHeader.render]
  rw [shape]
  apply whole.comap fun header : AcceptedHeader => (header.name, header.beforeColon, header.afterColon, header.value)
  rintro ⟨⟩ ⟨⟩ ⟨⟩
  rfl

theorem splits_head : Splits (fun _ => True) AcceptedHead.render := by
  have headers : Splits Ended fun headers : List AcceptedHeader => headers.flatMap AcceptedHeader.render := by
    apply splits_header.many
    · exact fun _ _ => trivial
    · exact fun _ _ => trivial
    · rintro header rest ends
      exact header.name_first.1 (Option.some.inj ends)
  have ended := (headers.marked [CR, LF] fun rest (_ : True) => rfl).led [CR, LF]
  have behindLine := splits_version.pair ended fun headers rest _ => rfl
  have whole := splits_line.pair behindLine fun _ _ _ => trivial
  have shape : AcceptedHead.render = fun head => head.line.render ++ (head.version.render ++ ([CR, LF] ++
      (head.headers.flatMap AcceptedHeader.render ++ [CR, LF]))) := by
    funext head
    simp [AcceptedHead.render, AcceptedHead.lines]
  rw [shape]
  apply whole.comap fun head : AcceptedHead => (head.line, head.version, head.headers)
  rintro ⟨⟩ ⟨⟩ ⟨⟩
  rfl

end Unambiguous

section Scanned

variable {scan : HeadScan}

/-- Behind the blank line a byte adds nothing to what is stored. -/
theorem HeadScan.feed_behind (past : scan.decodeState.pastHead = true) (ch : UInt8) :
    ∃ state pos, state.pastHead = true ∧ scan.feed ch = { scan with decodeState := state, nextPos := pos } := by
  have kind : scan.decodeState = .body ∨ scan.decodeState = .complete := by
    cases state : scan.decodeState <;> rw [state] at past <;> simp [pastHead] at past ⊢
  rcases kind with body | complete
  · exact ⟨.complete, scan.nextPos + 1, rfl, by simp [feed, body]⟩
  · exact ⟨scan.decodeState, scan.nextPos, past, feed_final (by rw [complete]; rfl) ch⟩

theorem HeadScan.read_behind (past : scan.decodeState.pastHead = true) (bytes : Bytes) :
    ∃ state, state.pastHead = true ∧ scan.read bytes = { scan with decodeState := state, nextPos := 0 } := by
  induction bytes generalizing scan with
  | nil => exact ⟨scan.decodeState, past, rfl⟩
  | cons ch bytes ih =>
    obtain ⟨state, pos, still, fed⟩ := feed_behind past ch
    have next : (scan.feed ch).decodeState.pastHead = true := by
      rw [fed]
      exact still
    obtain ⟨state', still', onward⟩ := ih next
    have first : scan.read (ch :: bytes) = (scan.feed ch).read bytes := rfl
    refine ⟨state', still', ?_⟩
    rw [first, onward, fed]

theorem AcceptedHead.read_lines (head : AcceptedHead) : ∃ key token, ({} : HeadScan).read head.lines = {
    decodeState := .crLf
    strMethod := head.line.method.bytes
    strUrl := head.line.url.bytes
    requestParams := StringMap.insertAll {} (head.line.params.map AcceptedParam.entry)
    strProtocol := head.line.protocol.bytes
    strVersion := head.version.render
    headers := StringMap.insertAll {} (head.headers.map AcceptedHeader.entry)
    key
    token } := by
  obtain ⟨key, token, line, -⟩ := HeadScan.read_line head.line
  have version := @HeadScan.read_version {
    decodeState := .beforeVersion
    strMethod := head.line.method.bytes
    strUrl := head.line.url.bytes
    requestParams := StringMap.insertAll {} (head.line.params.map AcceptedParam.entry)
    strProtocol := head.line.protocol.bytes
    key
    token } rfl head.version
  have lineEnd : ({
      decodeState := .version
      strMethod := head.line.method.bytes
      strUrl := head.line.url.bytes
      requestParams := StringMap.insertAll {} (head.line.params.map AcceptedParam.entry)
      strProtocol := head.line.protocol.bytes
      key
      token := head.version.render } : HeadScan).read [CR, LF] = {
      decodeState := .crLf
      strMethod := head.line.method.bytes
      strUrl := head.line.url.bytes
      requestParams := StringMap.insertAll {} (head.line.params.map AcceptedParam.entry)
      strProtocol := head.line.protocol.bytes
      strVersion := head.version.render
      key
      token := head.version.render } := rfl
  obtain ⟨key', token', headers, -⟩ := @HeadScan.read_headers {
    decodeState := .crLf
    strMethod := head.line.method.bytes
    strUrl := head.line.url.bytes
    requestParams := StringMap.insertAll {} (head.line.params.map AcceptedParam.entry)
    strProtocol := head.line.protocol.bytes
    strVersion := head.version.render
    key
    token := head.version.render } rfl head.headers
  refine ⟨key', token', ?_⟩
  dsimp only at version headers
  rw [AcceptedHead.lines, HeadScan.read_append, line, HeadScan.read_append, version, HeadScan.read_append,
    lineEnd, headers]

/-- The blank line ends the head, whatever follows it. -/
theorem AcceptedHead.read_render (head : AcceptedHead) (rest : Bytes) :
    ∃ state key token, state.pastHead = true ∧ ({} : HeadScan).read (head.render ++ rest) = {
      decodeState := state
      strMethod := head.line.method.bytes
      strUrl := head.line.url.bytes
      requestParams := StringMap.insertAll {} (head.line.params.map AcceptedParam.entry)
      strProtocol := head.line.protocol.bytes
      strVersion := head.version.render
      headers := StringMap.insertAll {} (head.headers.map AcceptedHeader.entry)
      key
      token } := by
  obtain ⟨key, token, lines⟩ := head.read_lines
  have state : (({} : HeadScan).read head.lines).decodeState = .crLf := by rw [lines]
  have blankLine := HeadScan.feed_blankLine state
  have ended : (((({} : HeadScan).read head.lines).feed CR).feed LF).decodeState.pastHead = true := by
    rw [blankLine]
    simp only []
    split <;> rfl
  obtain ⟨last, past, behind⟩ := HeadScan.read_behind ended rest
  refine ⟨last, key, token, past, ?_⟩
  have whole : ({} : HeadScan).read (head.lines ++ [CR, LF] ++ rest) =
      (((({} : HeadScan).read head.lines).feed CR).feed LF).read rest := by
    rw [HeadScan.read_append, HeadScan.read_append]
    exact HeadScan.read_position _ _ _
  rw [AcceptedHead.render, whole, behind, blankLine, lines]

end Scanned

section Heads

variable {bytes : Bytes}

theorem lexState_of_read {state : HttpRequestDecodeState} (read : (({} : HeadScan).read bytes).decodeState = state)
    (unfinished : state ≠ .complete) : lexState bytes = state := by
  have scanned : (HeadScan.of bytes).decodeState = state := read
  rcases HeadScan.of_decodeState bytes with same | ⟨complete, _⟩
  · exact same.symm.trans scanned
  · exact absurd (scanned.symm.trans complete) unfinished

theorem AcceptedLine.lexState_render (line : AcceptedLine) : lexState line.render = .beforeVersion := by
  obtain ⟨key, token, read, -⟩ := HeadScan.read_line line
  exact lexState_of_read (by rw [read]) (by decide)

/-- Whatever comes past the blank line starts with a head. -/
theorem exists_head (passes : (lexState bytes).pastHead = true) :
    ∃ (head : AcceptedHead) (rest : Bytes), bytes = head.render ++ rest := by
  have beyond : (lexState bytes).pastVersion = true := by
    cases state : lexState bytes <;> rw [state] at passes <;> first | rfl | cases passes
  obtain ⟨line, behind, rfl⟩ := exists_line beyond
  have split : lexState (line.render ++ behind) = (lexState line.render).afterAll behind := afterAll_append _ _ _
  rw [split, line.lexState_render] at passes
  obtain ⟨version, behind, rfl, lineEnd⟩ := exists_digits (.inl rfl) passes
  obtain ⟨headers, rest, rfl⟩ := exists_headers lineEnd
  refine ⟨⟨line, version, headers⟩, rest, ?_⟩
  simp [AcceptedHead.render, AcceptedHead.lines]

end Heads

theorem splits_once {bytes rest rest' : Bytes} {head head' : AcceptedHead} (first : bytes = head.render ++ rest)
    (second : bytes = head'.render ++ rest') : head = head' ∧ rest = rest' :=
  splits_head trivial trivial (first.symm.trans second)

/-- What the request of a call that returns holds. -/
theorem derived_of_returned {bytes : Bytes} {req : SHttpRequest}
    (parsed : ({} : SHttpRequest).parseInternal bytes bytes.length behind = .ok req) : Derived bytes req := by
  have scanned := head_of_parsed parsed
  have state : req.decodeState = (HeadScan.of bytes).decodeState := congrArg ParsedHead.decodeState scanned
  refine ⟨⟨fun passes => ?_, ?_⟩, ?_, fun _ _ _ _ => splits_once⟩
  · exact exists_head (lexState_passes rfl (by rw [← state]; exact passes))
  · rintro ⟨head, rest, rfl⟩
    obtain ⟨last, key, token, past, read⟩ := head.read_render rest
    have reached : (HeadScan.of (head.render ++ rest)).decodeState = last := congrArg (·.decodeState) read
    rw [state, reached]
    exact past
  · rintro head rest rfl
    obtain ⟨last, key, token, past, read⟩ := head.read_render rest
    refine ⟨?_, ⟨?_, ?_, ?_⟩, ?_, ?_⟩
    · exact (congrArg ParsedHead.strMethod scanned).trans (congrArg (·.strMethod) read)
    · exact (congrArg ParsedHead.strUrl scanned).trans (congrArg (·.strUrl) read)
    · exact (congrArg ParsedHead.requestParams scanned).trans (congrArg (·.requestParams) read)
    · exact (congrArg ParsedHead.strProtocol scanned).trans (congrArg (·.strProtocol) read)
    · exact (congrArg ParsedHead.strVersion scanned).trans (congrArg (·.strVersion) read)
    · exact (congrArg ParsedHead.headers scanned).trans (congrArg (·.headers) read)

/-- A call that does not return has come past a blank line to the body that it copies. -/
theorem exists_head_of_failed {bytes : Bytes} {failure : StringFailure}
    (failed : ({} : SHttpRequest).parseInternal bytes bytes.length behind = .error failure) :
    ∃ (head : AcceptedHead) (rest : Bytes), bytes = head.render ++ rest := by
  have fresh := SHttpRequest.parseInternal_fresh bytes behind le_rfl
  split at fresh
  · obtain ⟨req, returned, _⟩ := fresh
    cases failed.symm.trans returned
  · rename_i outside
    simp only [BodyInside, not_forall] at outside
    obtain ⟨pos, _, body, _⟩ := outside
    obtain ⟨head, rest, front⟩ := exists_head (lexState_passes rfl (by rw [body]; rfl))
    refine ⟨head, rest ++ bytes.drop pos, ?_⟩
    rw [← List.append_assoc, ← front, List.take_append_drop]

/-- One call on a whole text comes past the blank line exactly when the text starts with a head of
the grammar. There is only one such head, and the request holds its parts. -/
theorem derived_of_parsed (bytes behind : Bytes) :
    (∀ req, ({} : SHttpRequest).parseInternal bytes bytes.length behind = .ok req → Derived bytes req) ∧
      ∀ failure, ({} : SHttpRequest).parseInternal bytes bytes.length behind = .error failure →
        ∃ (head : AcceptedHead) (rest : Bytes), bytes = head.render ++ rest ∧
          ∀ (head' : AcceptedHead) (rest' : Bytes), bytes = head'.render ++ rest' → head = head' ∧ rest = rest' := by
  refine ⟨fun req => derived_of_returned, fun failure failed => ?_⟩
  obtain ⟨head, rest, starts⟩ := exists_head_of_failed failed
  exact ⟨head, rest, starts, fun _ _ => splits_once starts⟩

theorem hostHead_derived : ∃ req,
    ({} : SHttpRequest).parseInternal (hostHead " a") (hostHead " a").length [] = .ok req ∧
    Derived (hostHead " a") req := by
  have inside : BodyInside (hostHead " a") (hostHead " a").length [] := by decide +kernel
  obtain ⟨req, parsed, _⟩ := SHttpRequest.parseInternal_whole inside
  exact ⟨req, parsed, (derived_of_parsed _ _).1 req parsed⟩

end WSlyh.Http
