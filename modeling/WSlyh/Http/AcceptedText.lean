import WSlyh.Http.RequestText

/-! What a request head looks like to the automaton, however odd it is: each token is what one
state opens and the next one takes. -/

namespace WSlyh.Http

open Libc

/-- The state `before` lets the first byte in, and the state it leads to takes the others. -/
structure Token (before state : HttpRequestDecodeState) where
  first : UInt8
  rest : Bytes
  opens : before.opens first = some state
  takes : ∀ ch ∈ rest, state.takes ch = true

def Token.bytes {before state : HttpRequestDecodeState} (token : Token before state) : Bytes :=
  token.first :: token.rest

structure AcceptedParam where
  key : Token .beforeUriParamKey .uriParamKey
  value : Token .beforeUriParamValue .uriParamValue

structure AcceptedHeader where
  name : Token .crLf .headerKey
  beforeColon : Run isblank
  afterColon : Run isblank
  value : Token .headerAfterColon .headerValue

/-- A request line up to the slash of its version. -/
structure AcceptedLine where
  leading : Run isSeparator
  method : Token .start .method
  beforeUri : Word isblank
  url : Token .beforeUri .inUri
  params : List AcceptedParam
  beforeProtocol : Word isblank
  protocol : Token .beforeProtocol .protocol

def AcceptedParam.entry (param : AcceptedParam) : Bytes × Bytes := (param.key.bytes, param.value.bytes)
def AcceptedHeader.entry (header : AcceptedHeader) : Bytes × Bytes := (header.name.bytes, header.value.bytes)

def AcceptedParam.render (param : AcceptedParam) : Bytes := param.key.bytes ++ 61 :: param.value.bytes

def renderAccepted : List AcceptedParam → Bytes
  | [] => []
  | param :: params => 63 :: param.render ++ params.flatMap fun param => 38 :: param.render

def AcceptedHeader.render (header : AcceptedHeader) : Bytes :=
  header.name.bytes ++ (header.beforeColon.bytes ++ [58]) ++ header.afterColon.bytes ++ header.value.bytes ++ [CR, LF]

def AcceptedLine.render (line : AcceptedLine) : Bytes :=
  line.leading.bytes ++ line.method.bytes ++ line.beforeUri.bytes ++ line.url.bytes ++
    (renderAccepted line.params ++ line.beforeProtocol.bytes) ++ (line.protocol.bytes ++ [47])

namespace HttpRequestDecodeState

variable {state before : HttpRequestDecodeState} {ch : UInt8} {bytes : Bytes}

/-- The state after some more bytes, as far as the bytes alone decide it. -/
def afterAll (state : HttpRequestDecodeState) (bytes : Bytes) : HttpRequestDecodeState := bytes.foldl after state

@[simp] theorem afterAll_nil (state : HttpRequestDecodeState) : state.afterAll [] = state := rfl

@[simp] theorem afterAll_cons (state : HttpRequestDecodeState) (ch : UInt8) (bytes : Bytes) :
    state.afterAll (ch :: bytes) = (state.after ch).afterAll bytes := rfl

theorem afterAll_append (state : HttpRequestDecodeState) (front back : Bytes) :
    state.afterAll (front ++ back) = (state.afterAll front).afterAll back := List.foldl_append

theorem after_skips (skips : state.skips ch = true) : state.after ch = state := by
  rw [after, @HeadScan.feed_skips { decodeState := state } ch skips]

theorem after_takes (takes : state.takes ch = true) : state.after ch = state := by
  rw [after, @HeadScan.feed_takes { decodeState := state } ch takes]

theorem after_opens (opens : before.opens ch = some state) : before.after ch = state := by
  rw [after, @HeadScan.feed_opens { decodeState := before } ch state opens]

theorem after_invalid (invalid : state.isInvalid = true) (ch : UInt8) : state.after ch = state := by
  have final : state.isFinal = true := by
    rw [isFinal, invalid, Bool.true_or]
  rw [after, @HeadScan.feed_final { decodeState := state } final]

theorem afterAll_skips (skips : ∀ ch ∈ bytes, state.skips ch = true) : state.afterAll bytes = state := by
  induction bytes with
  | nil => rfl
  | cons ch bytes ih =>
    rw [afterAll_cons, after_skips (skips ch (by simp))]
    exact ih fun other member => skips other (by simp [member])

theorem afterAll_takes (takes : ∀ ch ∈ bytes, state.takes ch = true) : state.afterAll bytes = state := by
  induction bytes with
  | nil => rfl
  | cons ch bytes ih =>
    rw [afterAll_cons, after_takes (takes ch (by simp))]
    exact ih fun other member => takes other (by simp [member])

theorem afterAll_invalid (invalid : state.isInvalid = true) (bytes : Bytes) : state.afterAll bytes = state := by
  induction bytes with
  | nil => rfl
  | cons ch bytes ih => rw [afterAll_cons, after_invalid invalid, ih]

/-- The state that the first byte of a token leads to. -/
def leads : HttpRequestDecodeState → Option HttpRequestDecodeState
  | .start => some .method
  | .beforeUri => some .inUri
  | .beforeUriParamKey => some .uriParamKey
  | .beforeUriParamValue => some .uriParamValue
  | .beforeProtocol => some .protocol
  | .headerAfterColon => some .headerValue
  | _ => none

/-- What is not skipped before a token opens it, or is an error. -/
theorem opens_or_invalid (leads : before.leads = some state) (notSkipped : before.skips ch = false) :
    before.opens ch = some state ∨ (before.after ch).isInvalid = true := by
  cases here : before <;> rw [here] at leads <;> cases leads <;> subst here <;>
    simp only [skips, opens, after, HeadScan.feed, isSeparator] at notSkipped ⊢ <;> grind [isInvalid]

/-- What ends a token, state by state. -/
theorem method_end (ends : HttpRequestDecodeState.method.takes ch = false) :
    isblank ch = true ∧ HttpRequestDecodeState.method.after ch = .beforeUri ∨
      (HttpRequestDecodeState.method.after ch).isInvalid = true := by
  simp only [takes, after, HeadScan.feed] at ends ⊢
  grind [isInvalid]

theorem inUri_end (ends : HttpRequestDecodeState.inUri.takes ch = false) :
    ch = 63 ∧ HttpRequestDecodeState.inUri.after ch = .beforeUriParamKey ∨
      isblank ch = true ∧ HttpRequestDecodeState.inUri.after ch = .beforeProtocol := by
  simp only [takes, after, HeadScan.feed] at ends ⊢
  grind

theorem uriParamKey_end (ends : HttpRequestDecodeState.uriParamKey.takes ch = false) :
    ch = 61 ∧ HttpRequestDecodeState.uriParamKey.after ch = .beforeUriParamValue ∨
      (HttpRequestDecodeState.uriParamKey.after ch).isInvalid = true := by
  simp only [takes, after, HeadScan.feed] at ends ⊢
  grind [isInvalid]

theorem uriParamValue_end (ends : HttpRequestDecodeState.uriParamValue.takes ch = false) :
    ch = 38 ∧ HttpRequestDecodeState.uriParamValue.after ch = .beforeUriParamKey ∨
      isblank ch = true ∧ HttpRequestDecodeState.uriParamValue.after ch = .beforeProtocol := by
  simp only [takes, after, HeadScan.feed] at ends ⊢
  grind

theorem protocol_end (ends : HttpRequestDecodeState.protocol.takes ch = false) : ch = 47 := by
  simp only [takes] at ends
  grind

theorem headerValue_end (ends : HttpRequestDecodeState.headerValue.takes ch = false) : ch = CR := by
  simp only [takes] at ends
  grind

theorem headerKey_end (ends : HttpRequestDecodeState.headerKey.takes ch = false) :
    isblank ch = true ∧ HttpRequestDecodeState.headerKey.after ch = .headerBeforeColon ∨ ch = 58 := by
  simp only [takes, after, HeadScan.feed] at ends ⊢
  grind

theorem headerBeforeColon_end (ends : HttpRequestDecodeState.headerBeforeColon.skips ch = false) :
    ch = 58 ∨ (HttpRequestDecodeState.headerBeforeColon.after ch).isInvalid = true := by
  simp only [skips, after, HeadScan.feed] at ends ⊢
  grind [isInvalid]

/-- Behind a carriage return only a line feed is no error. -/
theorem whenCr_next : ch = LF ∨ (HttpRequestDecodeState.whenCr.after ch).isInvalid = true := by
  simp only [after, HeadScan.feed]
  grind [isInvalid]

theorem crLfCr_next : ch = LF ∨ (HttpRequestDecodeState.crLfCr.after ch).isInvalid = true := by
  simp only [after, HeadScan.feed]
  grind [isInvalid]

theorem crLf_next : ch = CR ∨ (HttpRequestDecodeState.crLf.opens ch = some .headerKey) ∨
    (HttpRequestDecodeState.crLf.after ch).isInvalid = true := by
  simp only [opens, after, HeadScan.feed]
  grind [isInvalid]

end HttpRequestDecodeState

/-- Bytes of one kind, and what follows them. -/
theorem exists_run (allowed : UInt8 → Bool) (bytes : Bytes) :
    ∃ (run : Run allowed) (rest : Bytes), bytes = run.bytes ++ rest ∧ ∀ ch ∈ rest.head?, allowed ch = false := by
  refine ⟨⟨bytes.takeWhile allowed, fun ch member => ?_⟩, bytes.dropWhile allowed, ?_, fun ch member => ?_⟩
  · exact List.mem_takeWhile_imp member
  · exact List.takeWhile_append_dropWhile.symm
  · have first := List.head?_dropWhile_not allowed bytes
    rw [Option.mem_def.mp member] at first
    exact first

section Inversion

open HttpRequestDecodeState

variable {goal : HttpRequestDecodeState → Bool} {before state : HttpRequestDecodeState} {bytes : Bytes}

theorem not_invalid (rejects : ∀ state, state.isInvalid = true → goal state = false)
    (passes : goal (state.afterAll bytes) = true) : state.isInvalid = false := by
  cases invalid : state.isInvalid with
  | false => rfl
  | true =>
    rw [afterAll_invalid invalid, rejects state invalid] at passes
    cases passes

/-- Whoever is to come to a state that `goal` tells, and is not there, has a byte to read. -/
theorem exists_next (passes : goal (state.afterAll bytes) = true) (notYet : goal state = false) :
    ∃ ch rest, bytes = ch :: rest ∧ goal ((state.after ch).afterAll rest) = true := by
  cases bytes with
  | nil =>
    rw [afterAll_nil, notYet] at passes
    cases passes
  | cons ch rest => exact ⟨ch, rest, rfl, passes⟩

/-- The token that a byte opens, and the byte that ends it. -/
theorem exists_opened {first : UInt8} (opens : before.opens first = some state) (notThen : goal state = false)
    (passes : goal ((before.after first).afterAll bytes) = true) :
    ∃ (token : Token before state) (ch : UInt8) (rest : Bytes), first :: bytes = token.bytes ++ ch :: rest ∧
      state.takes ch = false ∧ goal ((state.after ch).afterAll rest) = true := by
  rw [after_opens opens] at passes
  obtain ⟨run, behind, rfl, notTaken⟩ := exists_run state.takes bytes
  rw [afterAll_append, afterAll_takes run.allowed] at passes
  obtain ⟨ch, rest, rfl, ended⟩ := exists_next passes notThen
  exact ⟨⟨first, run.bytes, opens, run.allowed⟩, ch, rest, rfl, notTaken ch rfl, ended⟩

/-- A token, behind what may be skipped before it, and the byte that ends it. -/
theorem exists_token (rejects : ∀ state, state.isInvalid = true → goal state = false)
    (leads : before.leads = some state)
    (notYet : goal before = false) (notThen : goal state = false) (passes : goal (before.afterAll bytes) = true) :
    ∃ (gap : Run before.skips) (token : Token before state) (ch : UInt8) (rest : Bytes),
      bytes = gap.bytes ++ token.bytes ++ ch :: rest ∧ state.takes ch = false ∧
        goal ((state.after ch).afterAll rest) = true := by
  obtain ⟨gap, behind, rfl, notSkipped⟩ := exists_run before.skips bytes
  rw [afterAll_append, afterAll_skips gap.allowed] at passes
  obtain ⟨first, more, rfl, entered⟩ := exists_next passes notYet
  rcases opens_or_invalid leads (notSkipped first rfl) with opens | invalid
  · obtain ⟨token, ch, rest, split, ends, ended⟩ := exists_opened opens notThen entered
    refine ⟨gap, token, ch, rest, ?_, ends, ended⟩
    rw [split, List.append_assoc]
  · rw [not_invalid rejects entered] at invalid
    cases invalid

/-- Where nothing is skipped the token comes first. -/
theorem exists_token_at (rejects : ∀ state, state.isInvalid = true → goal state = false)
    (leads : before.leads = some state)
    (noGap : ∀ ch, before.skips ch = false) (notYet : goal before = false) (notThen : goal state = false)
    (passes : goal (before.afterAll bytes) = true) :
    ∃ (token : Token before state) (ch : UInt8) (rest : Bytes),
      bytes = token.bytes ++ ch :: rest ∧ state.takes ch = false ∧ goal ((state.after ch).afterAll rest) = true := by
  obtain ⟨gap, token, ch, rest, split, ends, ended⟩ := exists_token rejects leads notYet notThen passes
  have none_ : gap.bytes = [] := by
    apply List.eq_nil_iff_forall_not_mem.mpr
    intro other member
    exact Bool.false_ne_true ((noGap other).symm.trans (gap.allowed other member))
  rw [none_, List.nil_append] at split
  exact ⟨token, ch, rest, split, ends, ended⟩

end Inversion

/-- The states from the end of the version on. -/
def HttpRequestDecodeState.pastVersion : HttpRequestDecodeState → Bool
  | .whenCr | .crLf | .crLfCr | .headerKey | .headerBeforeColon | .headerAfterColon | .headerValue | .body
  | .complete => true
  | _ => false

/-- The states behind the blank line. -/
def HttpRequestDecodeState.pastHead : HttpRequestDecodeState → Bool
  | .body | .complete => true
  | _ => false

theorem pastVersion_rejects (state : HttpRequestDecodeState) (invalid : state.isInvalid = true) :
    state.pastVersion = false := by
  cases state <;> first | rfl | cases invalid

theorem pastHead_rejects (state : HttpRequestDecodeState) (invalid : state.isInvalid = true) :
    state.pastHead = false := by
  cases state <;> first | rfl | cases invalid

section Line

open HttpRequestDecodeState

variable {bytes : Bytes}

/-- The parameters, from the first key on, and the blank behind them. -/
theorem exists_params (passes : (HttpRequestDecodeState.beforeUriParamKey.afterAll bytes).pastVersion = true) :
    ∃ (param : AcceptedParam) (params : List AcceptedParam) (blank : UInt8) (rest : Bytes),
      bytes = param.render ++ (params.flatMap fun param => 38 :: param.render) ++ blank :: rest ∧
        isblank blank = true ∧ (HttpRequestDecodeState.beforeProtocol.afterAll rest).pastVersion = true := by
  induction total : bytes.length using Nat.strongRecOn generalizing bytes with
  | ind size ih =>
    obtain ⟨key, ch, behind, rfl, keyEnds, keyed⟩ :=
      exists_token_at pastVersion_rejects rfl (fun _ => rfl) rfl rfl passes
    rcases uriParamKey_end keyEnds with ⟨rfl, after⟩ | invalid
    · rw [after] at keyed
      obtain ⟨value, ch, rest, rfl, valueEnds, valued⟩ :=
        exists_token_at pastVersion_rejects rfl (fun _ => rfl) rfl rfl keyed
      rcases uriParamValue_end valueEnds with ⟨rfl, after⟩ | ⟨blank, after⟩
      · rw [after] at valued
        have shorter : rest.length < size := by
          rw [← total]
          simp [Token.bytes]
          omega
        obtain ⟨param, params, blank, rest, rfl, isBlank, onward⟩ := ih rest.length shorter valued rfl
        refine ⟨⟨key, value⟩, param :: params, blank, rest, ?_, isBlank, onward⟩
        simp [AcceptedParam.render]
      · rw [after] at valued
        exact ⟨⟨key, value⟩, [], ch, rest, by simp [AcceptedParam.render], blank, valued⟩
    · rw [not_invalid pastVersion_rejects keyed] at invalid
      cases invalid

/-- The blank that ends a token and the others before the next one. -/
def gapFrom {ch : UInt8} (blank : isblank ch = true) (more : Run isblank) : Word isblank where
  bytes := ch :: more.bytes
  allowed := by
    intro other member
    rcases List.mem_cons.mp member with rfl | later
    · exact blank
    · exact more.allowed other later
  nonempty := by simp

/-- From the end of the path or of the last value to the slash of the version. -/
theorem exists_protocol (passes : (HttpRequestDecodeState.beforeProtocol.afterAll bytes).pastVersion = true) :
    ∃ (gap : Run isblank) (protocol : Token .beforeProtocol .protocol) (rest : Bytes),
      bytes = gap.bytes ++ protocol.bytes ++ 47 :: rest := by
  obtain ⟨gap, protocol, ch, rest, rfl, ends, _⟩ := exists_token pastVersion_rejects rfl rfl rfl passes
  rw [protocol_end ends]
  exact ⟨⟨gap.bytes, gap.allowed⟩, protocol, rest, rfl⟩

/-- Whatever comes past the version starts with a request line. -/
theorem exists_line (passes : (lexState bytes).pastVersion = true) :
    ∃ (line : AcceptedLine) (rest : Bytes), bytes = line.render ++ rest := by
  obtain ⟨leading, method, ch, behind, rfl, methodEnds, named⟩ :=
    @exists_token HttpRequestDecodeState.pastVersion .start _ _ pastVersion_rejects rfl rfl rfl passes
  rcases method_end methodEnds with ⟨blank, after⟩ | invalid
  · rw [after] at named
    obtain ⟨moreBlanks, url, ch', behind, rfl, urlEnds, located⟩ :=
      exists_token pastVersion_rejects rfl rfl rfl named
    have start (params : List AcceptedParam) (blanks : Word isblank) (protocol : Token .beforeProtocol .protocol) :
        ∃ line : AcceptedLine, line.render =
          leading.bytes ++ method.bytes ++ ch :: (moreBlanks.bytes ++ url.bytes ++
            (renderAccepted params ++ blanks.bytes ++ (protocol.bytes ++ [47]))) := by
      refine ⟨⟨⟨leading.bytes, leading.allowed⟩, method,
        gapFrom blank ⟨moreBlanks.bytes, moreBlanks.allowed⟩, url, params,
        blanks, protocol⟩, ?_⟩
      simp [AcceptedLine.render, gapFrom]
    rcases inUri_end urlEnds with ⟨rfl, after⟩ | ⟨blank', after⟩
    · rw [after] at located
      obtain ⟨param, params, blank', rest, rfl, isBlank, queried⟩ := exists_params located
      obtain ⟨gap, protocol, rest, rfl⟩ := exists_protocol queried
      obtain ⟨line, text⟩ := start (param :: params) (gapFrom isBlank gap) protocol
      refine ⟨line, rest, ?_⟩
      rw [text]
      simp [renderAccepted, gapFrom]
    · rw [after] at located
      obtain ⟨gap, protocol, rest, rfl⟩ := exists_protocol located
      obtain ⟨line, text⟩ := start [] (gapFrom blank' gap) protocol
      refine ⟨line, rest, ?_⟩
      rw [text]
      simp [renderAccepted, gapFrom]
  · rw [not_invalid pastVersion_rejects named] at invalid
    cases invalid

end Line

section Headers

open HttpRequestDecodeState

variable {bytes : Bytes}

/-- From the end of a name over the colon. -/
theorem exists_colon {ch : UInt8} (ends : HttpRequestDecodeState.headerKey.takes ch = false)
    (passes : ((HttpRequestDecodeState.headerKey.after ch).afterAll bytes).pastHead = true) :
    ∃ (gap : Run isblank) (rest : Bytes), ch :: bytes = gap.bytes ++ 58 :: rest ∧
      (HttpRequestDecodeState.headerAfterColon.afterAll rest).pastHead = true := by
  rcases headerKey_end ends with ⟨blank, after⟩ | rfl
  · rw [after] at passes
    obtain ⟨gap, behind, rfl, notSkipped⟩ := exists_run HttpRequestDecodeState.headerBeforeColon.skips bytes
    rw [afterAll_append, afterAll_skips gap.allowed] at passes
    obtain ⟨colon, rest, rfl, named⟩ := exists_next passes rfl
    rcases headerBeforeColon_end (notSkipped colon rfl) with rfl | invalid
    · exact ⟨(gapFrom blank ⟨gap.bytes, gap.allowed⟩).toRun, rest, rfl, named⟩
    · rw [not_invalid pastHead_rejects named] at invalid
      cases invalid
  · exact ⟨⟨[], by simp⟩, bytes, rfl, passes⟩

/-- A line starts behind another one: the blank line, or a header. -/
theorem exists_header (passes : (HttpRequestDecodeState.crLf.afterAll bytes).pastHead = true) :
    (∃ rest, bytes = CR :: LF :: rest) ∨
      ∃ (header : AcceptedHeader) (rest : Bytes), bytes = header.render ++ rest ∧
        (HttpRequestDecodeState.crLf.afterAll rest).pastHead = true := by
  obtain ⟨first, behind, rfl, started⟩ := exists_next passes rfl
  rcases @crLf_next first with rfl | opens | invalid
  · left
    have blankLine : (HttpRequestDecodeState.crLfCr.afterAll behind).pastHead = true := started
    obtain ⟨ch, rest, rfl, ended⟩ := exists_next blankLine rfl
    rcases @crLfCr_next ch with rfl | invalid
    · exact ⟨rest, rfl⟩
    · rw [not_invalid pastHead_rejects ended] at invalid
      cases invalid
  · right
    obtain ⟨name, ch, behind, split, nameEnds, named⟩ := exists_opened opens rfl started
    obtain ⟨beforeColon, behind, colon, assigned⟩ := exists_colon nameEnds named
    obtain ⟨afterColon, value, ch', behind, rfl, valueEnds, valued⟩ :=
      exists_token pastHead_rejects rfl rfl rfl assigned
    obtain rfl := headerValue_end valueEnds
    have lineEnds : (HttpRequestDecodeState.whenCr.afterAll behind).pastHead = true := valued
    obtain ⟨ch', rest, rfl, ended⟩ := exists_next lineEnds rfl
    rcases @whenCr_next ch' with rfl | invalid
    · refine ⟨⟨name, beforeColon, ⟨afterColon.bytes, afterColon.allowed⟩, value⟩, rest, ?_, ended⟩
      rw [split, colon]
      simp [AcceptedHeader.render]
    · rw [not_invalid pastHead_rejects ended] at invalid
      cases invalid
  · rw [not_invalid pastHead_rejects started] at invalid
    cases invalid

/-- All the headers, and the blank line. -/
theorem exists_headers (passes : (HttpRequestDecodeState.crLf.afterAll bytes).pastHead = true) :
    ∃ (headers : List AcceptedHeader) (rest : Bytes),
      bytes = headers.flatMap AcceptedHeader.render ++ CR :: LF :: rest := by
  induction total : bytes.length using Nat.strongRecOn generalizing bytes with
  | ind size ih =>
    rcases exists_header passes with ⟨rest, rfl⟩ | ⟨header, rest, rfl, onward⟩
    · exact ⟨[], rest, rfl⟩
    · have shorter : rest.length < size := by
        rw [← total]
        simp [AcceptedHeader.render]
        omega
      obtain ⟨headers, rest, rfl⟩ := ih rest.length shorter onward rfl
      exact ⟨header :: headers, rest, by simp⟩

end Headers

end WSlyh.Http
