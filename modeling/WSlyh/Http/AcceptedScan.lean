import WSlyh.Http.AcceptedText

/-! What the scan makes of an accepted text, and the pairs that it hands to the maps on the way. -/

namespace WSlyh.Http

open Libc

namespace HeadScan

variable {scan : HeadScan} {ch : UInt8} {bytes : Bytes} {before state storing : HttpRequestDecodeState}

/-- The pairs that reading on hands to a map: what the scan holds whenever the state `storing` stores its token. -/
def handed (storing : HttpRequestDecodeState) (scan : HeadScan) : Bytes → List (Bytes × Bytes)
  | [] => []
  | ch :: rest =>
    if scan.decodeState = storing ∧ storing.storesOn ch = true then
      (scan.key, scan.token) :: handed storing (scan.feed ch) rest
    else handed storing (scan.feed ch) rest

theorem handed_quiet (quiet : scan.decodeState.storesOn ch = false) (bytes : Bytes) :
    scan.handed storing (ch :: bytes) = (scan.feed ch).handed storing bytes := by
  apply if_neg
  rintro ⟨rfl, stores⟩
  rw [quiet] at stores
  cases stores

theorem handed_elsewhere (elsewhere : scan.decodeState ≠ storing) (ch : UInt8) (bytes : Bytes) :
    scan.handed storing (ch :: bytes) = (scan.feed ch).handed storing bytes := by
  apply if_neg
  intro here
  exact elsewhere here.1

theorem handed_position (scan : HeadScan) (bytes : Bytes) (pos : Nat) :
    ({ scan with nextPos := pos } : HeadScan).handed storing bytes = scan.handed storing bytes := by
  induction bytes generalizing scan pos with
  | nil => rfl
  | cons ch bytes ih =>
    have moved := feed_position scan ch pos
    have first := ih (({ scan with nextPos := pos } : HeadScan).feed ch) 0
    have second := ih (scan.feed ch) 0
    rw [moved] at first
    have onward := first.symm.trans second
    unfold handed
    rw [onward]

theorem handed_append (scan : HeadScan) (front back : Bytes) :
    scan.handed storing (front ++ back) = scan.handed storing front ++ (scan.read front).handed storing back := by
  induction front generalizing scan with
  | nil => exact (handed_position scan back 0).symm
  | cons ch front ih =>
    have onward := ih (scan.feed ch)
    rw [List.cons_append, handed, handed, onward]
    split <;> rfl

theorem storesOn_skips (skips : state.skips ch = true) : state.storesOn ch = false := by
  cases state <;> first | rfl | cases skips

theorem storesOn_takes (takes : state.takes ch = true) : state.storesOn ch = false := by
  cases state <;> simp only [HttpRequestDecodeState.takes, HttpRequestDecodeState.storesOn] at takes ⊢ <;>
    grind [isdigit, isupper, isblank, CR]

theorem storesOn_opens (opens : state.opens ch = some next) : state.storesOn ch = false := by
  cases state <;> first | rfl | cases opens

theorem handed_skips (skips : ∀ ch ∈ bytes, scan.decodeState.skips ch = true) : scan.handed storing bytes = [] := by
  induction bytes generalizing scan with
  | nil => rfl
  | cons ch bytes ih =>
    rw [handed_quiet (storesOn_skips (skips ch (by simp))), feed_skips (skips ch (by simp))]
    exact ih fun other member => skips other (by simp [member])

theorem handed_takes (takes : ∀ ch ∈ bytes, scan.decodeState.takes ch = true) : scan.handed storing bytes = [] := by
  induction bytes generalizing scan with
  | nil => rfl
  | cons ch bytes ih =>
    rw [handed_quiet (storesOn_takes (takes ch (by simp))), feed_takes (takes ch (by simp))]
    exact ih fun other member => takes other (by simp [member])

theorem read_token (here : scan.decodeState = before) (token : Token before state) :
    scan.read token.bytes = { scan with decodeState := state, nextPos := 0, token := token.bytes } := by
  subst here
  have first : scan.read token.bytes = (scan.feed token.first).read token.rest := rfl
  rw [first, feed_opens token.opens, read_takes token.takes]
  rfl

theorem handed_token (here : scan.decodeState = before) (token : Token before state) :
    scan.handed storing token.bytes = [] := by
  subst here
  rw [Token.bytes, handed_quiet (storesOn_opens token.opens), feed_opens token.opens]
  exact handed_takes token.takes

/-- The first of some blanks ends a token, and the others are passed over. -/
theorem handed_gap {scan' : HeadScan} (gap : Word isblank) (stores : ∀ ch, isblank ch = true → scan.read [ch] = scan')
    (skips : ∀ ch, isblank ch = true → scan'.decodeState.skips ch = true) :
    ∃ ch, isblank ch = true ∧ scan.handed storing gap.bytes = scan.handed storing [ch] := by
  obtain ⟨ch, rest, split⟩ := List.exists_cons_of_ne_nil gap.nonempty
  have blank : isblank ch = true := gap.allowed ch (by simp [split])
  refine ⟨ch, blank, ?_⟩
  have passed : ∀ other ∈ rest, scan'.decodeState.skips other = true := by
    intro other member
    apply skips
    apply gap.allowed
    simp [split, member]
  have front : ch :: rest = [ch] ++ rest := rfl
  rw [split, front, handed_append, stores ch blank, handed_skips passed, List.append_nil]

section Params

theorem read_param (here : scan.decodeState = .beforeUriParamKey) (param : AcceptedParam) :
    scan.read param.render = { scan with
      decodeState := .uriParamValue
      nextPos := 0
      key := param.key.bytes
      token := param.value.bytes } := by
  have assigned : ({ scan with
      decodeState := .uriParamKey
      nextPos := 0
      token := param.key.bytes } : HeadScan).read [61] =
      { scan with
        decodeState := .beforeUriParamValue
        nextPos := 0
        key := param.key.bytes
        token := param.key.bytes } := rfl
  rw [AcceptedParam.render, read_append, read_token here, read_cons, assigned, read_token rfl]

theorem handed_param (here : scan.decodeState = .beforeUriParamKey) (param : AcceptedParam) :
    scan.handed storing param.render = [] := by
  have assigned : ({ scan with
      decodeState := .uriParamKey
      nextPos := 0
      token := param.key.bytes } : HeadScan).feed 61 =
      { scan with
        decodeState := .beforeUriParamValue
        nextPos := 1
        key := param.key.bytes
        token := param.key.bytes } := rfl
  rw [AcceptedParam.render, handed_append, handed_token here, read_token here, handed_quiet rfl, assigned,
    handed_token rfl, List.append_nil]

/-- From within the value of a parameter, through the others to the blanks behind them. -/
theorem read_moreParams (here : scan.decodeState = .uriParamValue) (params : List AcceptedParam) (gap : Word isblank) :
    ∃ key token, scan.read ((params.flatMap fun param => 38 :: param.render) ++ gap.bytes) = { scan with
        decodeState := .beforeProtocol
        nextPos := 0
        requestParams := (scan.requestParams.insert scan.key scan.token).insertAll (params.map AcceptedParam.entry)
        key
        token } ∧
      scan.handed .uriParamValue ((params.flatMap fun param => 38 :: param.render) ++ gap.bytes) =
        (scan.key, scan.token) :: params.map AcceptedParam.entry := by
  induction params generalizing scan with
  | nil =>
    have stores (ch : UInt8) (blank : isblank ch = true) : scan.read [ch] = { scan with
        decodeState := .beforeProtocol
        nextPos := 0
        requestParams := scan.requestParams.insert scan.key scan.token } := by
      have other : ch ≠ 38 := by
        rintro rfl
        cases blank
      simp [read, feed, here, blank, other]
    have skips (ch : UInt8) (blank : isblank ch = true) :
      HttpRequestDecodeState.beforeProtocol.skips ch = true := blank
    refine ⟨scan.key, scan.token, read_gap gap stores skips, ?_⟩
    obtain ⟨ch, blank, ends⟩ := @handed_gap _ .uriParamValue _ gap stores skips
    rw [List.flatMap_nil, List.nil_append, ends]
    simp [handed, here, HttpRequestDecodeState.storesOn, blank]
  | cons param params ih =>
    have stored : scan.read [38] = { scan with
        decodeState := .beforeUriParamKey
        nextPos := 0
        requestParams := scan.requestParams.insert scan.key scan.token } := by
      simp [read, feed, here]
    have ended : scan.handed .uriParamValue [38] = [(scan.key, scan.token)] := by
      simp [handed, here, HttpRequestDecodeState.storesOn]
    have shape : ((param :: params).flatMap fun param => 38 :: param.render) ++ gap.bytes =
        [38] ++ (param.render ++ ((params.flatMap fun param => 38 :: param.render) ++ gap.bytes)) := by
      simp
    obtain ⟨key, token, done, calls⟩ := @ih { scan with
      decodeState := .uriParamValue
      nextPos := 0
      requestParams := scan.requestParams.insert scan.key scan.token
      key := param.key.bytes
      token := param.value.bytes } rfl
    refine ⟨key, token, ?_, ?_⟩
    · rw [shape, read_append, stored, read_append, read_param rfl param, done]
      rfl
    · rw [shape, handed_append, ended, stored, handed_append, handed_param rfl param, read_param rfl param, calls]
      rfl

theorem read_params (here : scan.decodeState = .inUri) (params : List AcceptedParam) (gap : Word isblank) :
    ∃ key token, scan.read (renderAccepted params ++ gap.bytes) = { scan with
        decodeState := .beforeProtocol
        nextPos := 0
        strUrl := scan.token
        requestParams := scan.requestParams.insertAll (params.map AcceptedParam.entry)
        key
        token } ∧
      scan.handed .uriParamValue (renderAccepted params ++ gap.bytes) = params.map AcceptedParam.entry := by
  cases params with
  | nil =>
    have stores (ch : UInt8) (blank : isblank ch = true) : scan.read [ch] = { scan with
        decodeState := .beforeProtocol
        nextPos := 0
        strUrl := scan.token } := by
      have other : ch ≠ 63 := by
        rintro rfl
        cases blank
      simp [read, feed, here, blank, other]
    have skips (ch : UInt8) (blank : isblank ch = true) :
      HttpRequestDecodeState.beforeProtocol.skips ch = true := blank
    refine ⟨scan.key, scan.token, read_gap gap stores skips, ?_⟩
    obtain ⟨ch, _, ends⟩ := @handed_gap _ .uriParamValue _ gap stores skips
    rw [renderAccepted, List.nil_append, ends]
    simp [handed, here]
  | cons param params =>
    have stored : scan.read [63] = { scan with
        decodeState := .beforeUriParamKey
        nextPos := 0
        strUrl := scan.token } := by
      simp [read, feed, here]
    have ended : scan.handed .uriParamValue [63] = [] := by
      simp [handed, here]
    have shape : renderAccepted (param :: params) ++ gap.bytes =
        [63] ++ (param.render ++ ((params.flatMap fun param => 38 :: param.render) ++ gap.bytes)) := by
      simp [renderAccepted]
    obtain ⟨key, token, done, calls⟩ := @read_moreParams { scan with
      decodeState := .uriParamValue
      nextPos := 0
      strUrl := scan.token
      key := param.key.bytes
      token := param.value.bytes } rfl params gap
    refine ⟨key, token, ?_, ?_⟩
    · rw [shape, read_append, stored, read_append, read_param rfl param, done]
      rfl
    · rw [shape, handed_append, ended, stored, handed_append, handed_param rfl param, read_param rfl param, calls]
      rfl

theorem read_method (leading : Run isSeparator) (method : Token .start .method) (gap : Word isblank) :
    ({} : HeadScan).read (leading.bytes ++ (method.bytes ++ gap.bytes)) =
        { decodeState := .beforeUri, strMethod := method.bytes, token := method.bytes } ∧
      ({} : HeadScan).handed .uriParamValue (leading.bytes ++ (method.bytes ++ gap.bytes)) = [] := by
  have passed : ({} : HeadScan).read leading.bytes = {} := read_skips leading.allowed
  have skipped : ({} : HeadScan).handed .uriParamValue leading.bytes = [] := handed_skips leading.allowed
  have stores (ch : UInt8) (blank : isblank ch = true) :
      ({ decodeState := .method, token := method.bytes } : HeadScan).read [ch] =
        { decodeState := .beforeUri, strMethod := method.bytes, token := method.bytes } := by
    simp [read, feed, blank, not_upper_of_blank blank]
  have skips (ch : UInt8) (blank : isblank ch = true) : HttpRequestDecodeState.beforeUri.skips ch = true := blank
  constructor
  · rw [read_append, passed, read_append, read_token rfl]
    exact read_gap gap stores skips
  · obtain ⟨ch, blank, ends⟩ := @handed_gap _ .uriParamValue _ gap stores skips
    rw [handed_append, skipped, passed, handed_append, handed_token rfl, read_token rfl, ends]
    rfl

/-- A request line leaves its parts behind, each of them as it was read. -/
theorem read_line (line : AcceptedLine) :
    ∃ key token, ({} : HeadScan).read line.render = {
        decodeState := .beforeVersion
        strMethod := line.method.bytes
        strUrl := line.url.bytes
        requestParams := StringMap.insertAll {} (line.params.map AcceptedParam.entry)
        strProtocol := line.protocol.bytes
        key
        token } ∧
      ({} : HeadScan).handed .uriParamValue line.render = line.params.map AcceptedParam.entry := by
  obtain ⟨method, noCall⟩ := read_method line.leading line.method line.beforeUri
  obtain ⟨key, token, params, calls⟩ := @read_params
    { decodeState := .inUri, strMethod := line.method.bytes, token := line.url.bytes }
    rfl line.params line.beforeProtocol
  have slash : ({
      decodeState := .protocol
      strMethod := line.method.bytes
      strUrl := line.url.bytes
      requestParams := StringMap.insertAll {} (line.params.map AcceptedParam.entry)
      key
      token := line.protocol.bytes } : HeadScan).read [47] = {
      decodeState := .beforeVersion
      strMethod := line.method.bytes
      strUrl := line.url.bytes
      requestParams := StringMap.insertAll {} (line.params.map AcceptedParam.entry)
      strProtocol := line.protocol.bytes
      key
      token := line.protocol.bytes } := rfl
  have shape : line.render = (line.leading.bytes ++ (line.method.bytes ++ line.beforeUri.bytes)) ++ (line.url.bytes ++
      ((renderAccepted line.params ++ line.beforeProtocol.bytes) ++ (line.protocol.bytes ++ [47]))) := by
    simp [AcceptedLine.render]
  dsimp only at params
  refine ⟨key, line.protocol.bytes, ?_, ?_⟩
  · rw [shape, read_append, method, read_append, read_token rfl, read_append, params, read_append,
      read_token rfl, slash]
  · rw [shape, handed_append, noCall, method, handed_append, handed_token rfl, read_token rfl, handed_append, calls,
      params, handed_append, handed_token rfl, read_token rfl]
    simp [handed]

end Params

section Headers

/-- The colon, after any blanks. -/
theorem read_colon (here : scan.decodeState = .headerKey) (gap : Run isblank) :
    scan.read (gap.bytes ++ [58]) = { scan with decodeState := .headerAfterColon, nextPos := 0, key := scan.token } ∧
      scan.handed .headerValue (gap.bytes ++ [58]) = [] := by
  cases split : gap.bytes with
  | nil =>
    have plain : isblank 58 = false := rfl
    simp [read, feed, handed, here, plain]
  | cons ch rest =>
    have blank : isblank ch = true := gap.allowed ch (by simp [split])
    have named : scan.read [ch] =
      { scan with decodeState := .headerBeforeColon, nextPos := 0, key := scan.token } := by
      simp [read, feed, here, blank]
    have quiet : scan.handed .headerValue [ch] = [] := by
      simp [handed, here]
    have skipped : ∀ other ∈ rest, HttpRequestDecodeState.headerBeforeColon.skips other = true := by
      intro other member
      exact gap.allowed other (by simp [split, member])
    have passed : ({ scan with
        decodeState := .headerBeforeColon
        nextPos := 0
        key := scan.token } : HeadScan).read rest =
        { scan with decodeState := .headerBeforeColon, nextPos := 0, key := scan.token } := read_skips skipped
    have shape : ch :: rest ++ [58] = [ch] ++ (rest ++ [58]) := rfl
    constructor
    · rw [shape, read_append, named, read_append, passed]
      rfl
    · rw [shape, handed_append, quiet, named, handed_append, handed_skips skipped, passed]
      rfl

theorem read_header (here : scan.decodeState = .crLf) (header : AcceptedHeader) :
    scan.read header.render = { scan with
        nextPos := 0
        headers := scan.headers.insert header.name.bytes header.value.bytes
        key := header.name.bytes
        token := header.value.bytes } ∧
      scan.handed .headerValue header.render = [header.entry] := by
  have colon := @read_colon { scan with decodeState := .headerKey, nextPos := 0, token := header.name.bytes } rfl
    header.beforeColon
  have passed : ({ scan with
      decodeState := .headerAfterColon
      nextPos := 0
      key := header.name.bytes
      token := header.name.bytes } : HeadScan).read header.afterColon.bytes = _ := read_skips header.afterColon.allowed
  have skipped : ({ scan with
      decodeState := .headerAfterColon
      nextPos := 0
      key := header.name.bytes
      token := header.name.bytes } : HeadScan).handed .headerValue header.afterColon.bytes = [] :=
    handed_skips header.afterColon.allowed
  have shape : header.render = header.name.bytes ++ ((header.beforeColon.bytes ++ [58]) ++
      (header.afterColon.bytes ++ (header.value.bytes ++ [CR, LF]))) := by
    simp [AcceptedHeader.render]
  constructor
  · rw [shape, read_append, read_token here, read_append, colon.1, read_append, passed, read_append, read_token rfl]
    simp [read, feed, here]
  · rw [shape, handed_append, handed_token here, read_token here, handed_append, colon.2, colon.1, handed_append,
      skipped, passed, handed_append, handed_token rfl, read_token rfl]
    simp [handed, feed, HttpRequestDecodeState.storesOn, AcceptedHeader.entry]

theorem read_headers (here : scan.decodeState = .crLf) (headers : List AcceptedHeader) :
    ∃ key token, scan.read (headers.flatMap AcceptedHeader.render) = { scan with
        nextPos := 0
        headers := scan.headers.insertAll (headers.map AcceptedHeader.entry)
        key
        token } ∧
      scan.handed .headerValue (headers.flatMap AcceptedHeader.render) = headers.map AcceptedHeader.entry := by
  induction headers generalizing scan with
  | nil => exact ⟨scan.key, scan.token, rfl, rfl⟩
  | cons header headers ih =>
    obtain ⟨key, token, done, calls⟩ := @ih { scan with
      nextPos := 0
      headers := scan.headers.insert header.name.bytes header.value.bytes
      key := header.name.bytes
      token := header.value.bytes } here
    obtain ⟨first, called⟩ := read_header here header
    refine ⟨key, token, ?_, ?_⟩
    · rw [List.flatMap_cons, read_append, first, done]
      rfl
    · rw [List.flatMap_cons, handed_append, called, first, calls]
      rfl

/-- The blank line, and what the headers say of a body. -/
theorem feed_blankLine (here : scan.decodeState = .crLf) :
    (scan.feed CR).feed LF = { scan with
      decodeState := if (scan.headers.find? contentLengthName).any fun text => atoi text ≤ 0 then .complete else .body
      nextPos := scan.nextPos + 2 } := by
  have opened : scan.feed CR = { scan with decodeState := .crLfCr, nextPos := scan.nextPos + 1 } := by
    simp [feed, here]
  rw [opened]
  cases declared : scan.headers.find? contentLengthName with
  | none => simp [feed, declared]
  | some text =>
    by_cases positive : 0 < atoi text
    · simp [feed, declared, positive, Int.not_le.mpr positive]
    · simp [feed, declared, positive, Int.not_lt.mp positive]

theorem handed_blankLine (here : scan.decodeState = .crLf) (rest : Bytes) :
    scan.handed storing (CR :: LF :: rest) = ((scan.feed CR).feed LF).handed storing rest := by
  have opened : (scan.feed CR).decodeState = .crLfCr := by
    simp [feed, here]
  have quiet : scan.decodeState.storesOn CR = false := by
    rw [here]
    rfl
  have quiet' : (scan.feed CR).decodeState.storesOn LF = false := by
    rw [opened]
    rfl
  rw [handed_quiet quiet, handed_quiet quiet']

end Headers

end HeadScan

end WSlyh.Http
