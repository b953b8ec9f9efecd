import WSlyh.Http.HeaderLines

/-! The parts of a request line as its separators cut it, and when the automaton stores just these. -/

namespace WSlyh.Http

open Libc

/-- Behind the separators, the method and the blanks: the target, and what follows it. -/
def fromTarget (bytes : Bytes) : Bytes := ((bytes.dropWhile isSeparator).dropWhile isupper).dropWhile isblank

def targetOf (bytes : Bytes) : Bytes := (fromTarget bytes).takeWhile (!isblank ·)

def pathOf (target : Bytes) : Bytes := target.takeWhile (· != 63)

/-- The parts between the ampersands, behind the question mark. -/
def itemsOf : Bytes → List Bytes
  | [] => []
  | _ :: query => query.splitOn 38

def queryItems (target : Bytes) : List Bytes := itemsOf (target.dropWhile (· != 63))

def protocolOf (bytes : Bytes) : Bytes :=
  (((fromTarget bytes).dropWhile (!isblank ·)).dropWhile isblank).takeWhile (· != 47)

/-- No blank and no line break. -/
def OneLine (text : Bytes) : Prop := ∀ ch ∈ text, isSeparator ch = false

theorem oneLine_of_all {text : Bytes} (all : (text.all fun ch => !isSeparator ch) = true) : OneLine text := by
  intro ch member
  have plain := List.all_eq_true.mp all ch member
  rwa [Bool.not_eq_true'] at plain

/-- What is stored is on one line, and no part of it has the separator that ends it. -/
structure CleanLine (bytes : Bytes) (req : SHttpRequest) : Prop where
  url : req.strUrl.head? = some 47 ∧ 63 ∉ req.strUrl ∧ OneLine req.strUrl
  protocol : 47 ∉ req.strProtocol ∧ OneLine req.strProtocol
  params : ∀ key value, req.requestParams.find? key = some value →
    (OneLine key ∧ 61 ∉ key ∧ 38 ∉ key) ∧ OneLine value ∧ 38 ∉ value
  unmerged : ∀ param ∈ ({} : HeadScan).handed .uriParamValue bytes, 38 ∉ param.1 ∧ 38 ∉ param.2

/-- The path and the protocol are plain, each part of the query has a key and a value, and no line
break is in a parameter that is kept. -/
structure PlainLine (bytes : Bytes) : Prop where
  path : OneLine (pathOf (targetOf bytes))
  protocol : protocolOf bytes ≠ [] ∧ OneLine (protocolOf bytes)
  query : ∃ fields, (queryItems (targetOf bytes)).mapM (cutAt 61) = some fields ∧ (∀ field ∈ fields, Filled field) ∧
    ∀ key value, (StringMap.insertAll {} fields).find? key = some value → OneLine key ∧ OneLine value

section Parts

variable {line : AcceptedLine} {ch : UInt8} {rest : Bytes}

/-- A run of one kind of bytes, and a byte of another kind behind it. -/
theorem span_front {kind : UInt8 → Bool} {front rest : Bytes} (inside : ∀ ch ∈ front, kind ch = true)
    (outside : ∀ ch ∈ rest.head?, kind ch = false) :
    (front ++ rest).takeWhile kind = front ∧ (front ++ rest).dropWhile kind = rest := by
  rw [List.takeWhile_append_of_pos inside, List.dropWhile_append_of_pos inside]
  cases rest with
  | nil => simp
  | cons ch rest =>
    have stops := outside ch rfl
    simp [stops]

theorem AcceptedParam.key_first (param : AcceptedParam) : isSeparator param.key.first = false := by
  have opens := param.key.opens
  simp only [HttpRequestDecodeState.opens] at opens
  grind

theorem AcceptedParam.value_first (param : AcceptedParam) : isSeparator param.value.first = false := by
  have opens := param.value.opens
  simp only [HttpRequestDecodeState.opens] at opens
  grind

theorem AcceptedParam.key_rest {param : AcceptedParam} (member : ch ∈ param.key.rest) :
    ch ≠ 61 ∧ isblank ch = false := by
  have taken := param.key.takes ch member
  simp only [HttpRequestDecodeState.takes] at taken
  grind

theorem AcceptedParam.value_rest {param : AcceptedParam} (member : ch ∈ param.value.rest) :
    ch ≠ 38 ∧ isblank ch = false := by
  have taken := param.value.takes ch member
  simp only [HttpRequestDecodeState.takes] at taken
  grind

theorem AcceptedParam.render_noBlank {param : AcceptedParam} (member : ch ∈ param.render) : isblank ch = false := by
  have first {other : UInt8} (plain : isSeparator other = false) : isblank other = false := by
    simp only [isSeparator, Bool.or_eq_false_iff] at plain
    exact plain.2
  rcases List.mem_append.mp member with inKey | member
  · rcases List.mem_cons.mp inKey with rfl | later
    · exact first param.key_first
    · exact (key_rest later).2
  · rcases List.mem_cons.mp member with rfl | inValue
    · rfl
    · rcases List.mem_cons.mp inValue with rfl | later
      · exact first param.value_first
      · exact (value_rest later).2

theorem renderAccepted_noBlank {params : List AcceptedParam} (member : ch ∈ renderAccepted params) :
    isblank ch = false := by
  cases params with
  | nil => cases member
  | cons param params =>
    rcases List.mem_cons.mp member with rfl | member
    · rfl
    · rcases List.mem_append.mp member with first | others
      · exact param.render_noBlank first
      · obtain ⟨other, _, inOther⟩ := List.mem_flatMap.mp others
        rcases List.mem_cons.mp inOther with rfl | inOther
        · rfl
        · exact other.render_noBlank inOther

theorem AcceptedLine.url_first (line : AcceptedLine) : line.url.first = 47 := by
  have opens := line.url.opens
  simp only [HttpRequestDecodeState.opens] at opens
  grind

theorem AcceptedLine.url_rest (member : ch ∈ line.url.rest) : ch ≠ 63 ∧ isblank ch = false := by
  have taken := line.url.takes ch member
  simp only [HttpRequestDecodeState.takes] at taken
  grind

theorem AcceptedLine.method_upper (line : AcceptedLine) : ∀ ch ∈ line.method.bytes, isupper ch = true := by
  intro ch member
  rcases List.mem_cons.mp member with rfl | later
  · have opens := line.method.opens
    simp only [HttpRequestDecodeState.opens] at opens
    grind
  · exact line.method.takes ch later

theorem AcceptedLine.protocol_first (line : AcceptedLine) : isblank line.protocol.first = false := by
  have opens := line.protocol.opens
  simp only [HttpRequestDecodeState.opens] at opens
  grind

theorem AcceptedLine.protocol_rest (line : AcceptedLine) : 47 ∉ line.protocol.rest := by
  intro member
  cases line.protocol.takes 47 member

/-- A word of blanks, and what does not start with one. -/
theorem dropWhile_blanks (gap : Run isblank) {rest : Bytes} (outside : ∀ ch ∈ rest.head?, isblank ch = false) :
    (gap.bytes ++ rest).dropWhile isblank = rest :=
  (span_front gap.allowed outside).2

theorem blank_head (gap : Word isblank) (rest : Bytes) : ∀ ch ∈ (gap.bytes ++ rest).head?, isblank ch = true := by
  obtain ⟨first, more, split⟩ := List.exists_cons_of_ne_nil gap.nonempty
  rw [split]
  intro ch member
  cases member
  exact gap.allowed first (by simp [split])

theorem AcceptedLine.fromTarget_render (line : AcceptedLine) (rest : Bytes) : fromTarget (line.render ++ rest) =
    (line.url.bytes ++ renderAccepted line.params) ++
      (line.beforeProtocol.bytes ++ (line.protocol.bytes ++ 47 :: rest)) := by
  have shape : line.render ++ rest = line.leading.bytes ++ (line.method.bytes ++ (line.beforeUri.bytes ++
      ((line.url.bytes ++ renderAccepted line.params) ++
        (line.beforeProtocol.bytes ++ (line.protocol.bytes ++ 47 :: rest))))) := by
    simp [render]
  have upper : isupper line.method.first = true := line.method_upper _ (by simp [Token.bytes])
  have leading := @span_front isSeparator line.leading.bytes (line.method.bytes ++ (line.beforeUri.bytes ++
      ((line.url.bytes ++ renderAccepted line.params) ++
        (line.beforeProtocol.bytes ++ (line.protocol.bytes ++ 47 :: rest))))) line.leading.allowed (by
    intro ch member
    cases member
    simp only [isupper, isSeparator, isblank] at upper ⊢
    grind [CR, LF])
  have method := @span_front isupper line.method.bytes (line.beforeUri.bytes ++
      ((line.url.bytes ++ renderAccepted line.params) ++
        (line.beforeProtocol.bytes ++ (line.protocol.bytes ++ 47 :: rest)))) line.method_upper (by
    intro ch member
    exact not_upper_of_blank (blank_head line.beforeUri _ ch member))
  rw [fromTarget, shape, leading.2, method.2]
  apply dropWhile_blanks line.beforeUri.toRun
  intro ch member
  cases member
  rw [line.url_first]
  rfl

theorem AcceptedLine.target_noBlank (line : AcceptedLine) :
    ∀ ch ∈ line.url.bytes ++ renderAccepted line.params, isblank ch = false := by
  intro ch member
  rcases List.mem_append.mp member with inUrl | inQuery
  · rcases List.mem_cons.mp inUrl with rfl | later
    · rw [line.url_first]
      rfl
    · exact (url_rest later).2
  · exact renderAccepted_noBlank inQuery

theorem AcceptedLine.target_render (line : AcceptedLine) (rest : Bytes) :
    targetOf (line.render ++ rest) = line.url.bytes ++ renderAccepted line.params ∧
      (fromTarget (line.render ++ rest)).dropWhile (!isblank ·) =
        line.beforeProtocol.bytes ++ (line.protocol.bytes ++ 47 :: rest) := by
  rw [targetOf, line.fromTarget_render]
  apply span_front
  · intro ch member
    rw [line.target_noBlank ch member]
    rfl
  · intro ch member
    rw [blank_head line.beforeProtocol _ ch member]
    rfl

theorem AcceptedLine.path_render (line : AcceptedLine) (rest : Bytes) :
    pathOf (targetOf (line.render ++ rest)) = line.url.bytes ∧
      (targetOf (line.render ++ rest)).dropWhile (· != 63) = renderAccepted line.params := by
  rw [pathOf, (line.target_render rest).1]
  apply span_front
  · intro ch member
    rcases List.mem_cons.mp member with rfl | later
    · rw [line.url_first]
      rfl
    · exact bne_iff_ne.mpr (url_rest later).1
  · intro ch member
    cases params : line.params with
    | nil =>
      rw [params] at member
      cases member
    | cons param params' =>
      rw [params] at member
      cases member
      rfl

/-- The protocol is what stands before the slash, unless the slash comes first. -/
theorem AcceptedLine.protocol_render (line : AcceptedLine) (rest : Bytes) :
    protocolOf (line.render ++ rest) = if line.protocol.first = 47 then [] else line.protocol.bytes := by
  have behind : ((fromTarget (line.render ++ rest)).dropWhile (!isblank ·)).dropWhile isblank =
      line.protocol.bytes ++ 47 :: rest := by
    rw [(line.target_render rest).2]
    apply dropWhile_blanks line.beforeProtocol.toRun
    intro ch member
    cases member
    exact line.protocol_first
  rw [protocolOf, behind]
  split
  · rename_i slash
    rw [Token.bytes, slash]
    rfl
  · rename_i named
    apply (span_front ?_ ?_).1
    · intro ch member
      rw [bne_iff_ne]
      rintro rfl
      rcases List.mem_cons.mp member with first | later
      · exact named first.symm
      · exact line.protocol_rest later
    · intro ch member
      cases member
      rfl

end Parts

section Items

theorem splitOn_item {item : Bytes} (whole : 38 ∉ item) (params : List AcceptedParam) :
    (item ++ params.flatMap fun param => 38 :: param.render).splitOn 38 = item :: itemsOf (renderAccepted params) := by
  cases params with
  | nil =>
    rw [List.flatMap_nil, List.append_nil, List.splitOn_eq_singleton whole]
    rfl
  | cons param params =>
    rw [List.flatMap_cons, List.cons_append, List.splitOn_append_cons_self_of_not_mem whole]
    rfl

/-- No separator is inside a key or a value. -/
structure AcceptedParam.Separate (param : AcceptedParam) : Prop where
  key : 61 ∉ param.key.bytes ∧ 38 ∉ param.key.bytes
  value : 38 ∉ param.value.bytes

theorem AcceptedParam.no_equals {param : AcceptedParam} (named : param.key.first ≠ 61) : 61 ∉ param.key.bytes := by
  intro member
  rcases List.mem_cons.mp member with first | later
  · exact named first.symm
  · exact (key_rest later).1 rfl

/-- Behind a first byte `=` no key is left. -/
theorem AcceptedParam.missing_key (param : AcceptedParam) (unnamed : param.key.first = 61) (value : Bytes) :
    Missing (cutAt 61) (param.key.bytes ++ value) := by
  intro field cut filled
  have nothing := @cutAt_append 61 [] List.not_mem_nil (param.key.rest ++ value)
  rw [Token.bytes, unnamed, List.cons_append] at cut
  rw [List.nil_append, cut] at nothing
  cases nothing
  exact filled.1 rfl

/-- An ampersand in the key: the part before it has no `=`, or nothing before that. -/
theorem AcceptedParam.missing_equals (param : AcceptedParam) {item more : Bytes}
    (cut : param.key.bytes = item ++ 38 :: more) : Missing (cutAt 61) item := by
  intro field found filled
  cases item with
  | nil => cases found
  | cons first item =>
    rw [Token.bytes, List.cons_append, List.cons.injEq] at cut
    have absent : 61 ∉ item := by
      intro member
      exact (@key_rest _ param (by simp [cut.2, member])).1 rfl
    exact filled.1 (cutAt_first absent found)

theorem AcceptedParam.missing_value (param : AcceptedParam) : Missing (cutAt 61) (param.key.bytes ++ [61]) := by
  by_cases unnamed : param.key.first = 61
  · exact param.missing_key unnamed [61]
  · intro field cut filled
    rw [cutAt_append (param.no_equals unnamed)] at cut
    cases cut
    exact filled.2 rfl

/-- The first part of what starts with a parameter is the parameter, unless a side of it is missing there. -/
theorem AcceptedParam.first_item (param : AcceptedParam) (params : List AcceptedParam) :
    ∃ item items, itemsOf (renderAccepted (param :: params)) = item :: items ∧
      ((cutAt 61 item = some param.entry ∧ items = itemsOf (renderAccepted params) ∧ param.Separate) ∨
        Missing (cutAt 61) item) := by
  have start : itemsOf (renderAccepted (param :: params)) =
      (param.key.bytes ++ 61 :: (param.value.bytes ++ params.flatMap fun param => 38 :: param.render)).splitOn 38 := by
    simp [renderAccepted, itemsOf, render]
  rw [start]
  by_cases broken : 38 ∈ param.key.bytes
  · obtain ⟨item, more, split, whole⟩ := List.eq_append_cons_of_mem broken
    have first := List.splitOn_append_cons_self_of_not_mem whole
      (more ++ 61 :: (param.value.bytes ++ params.flatMap fun param => 38 :: param.render))
    rw [split, List.append_assoc, List.cons_append]
    exact ⟨item, _, first, .inr (param.missing_equals split)⟩
  · have assigned : 38 ∉ param.key.bytes ++ [61] := by
      simp [broken]
    by_cases empty : param.value.first = 38
    · have shape : param.key.bytes ++ 61 :: (param.value.bytes ++ params.flatMap fun param => 38 :: param.render) =
          (param.key.bytes ++ [61]) ++ 38 :: (param.value.rest ++ params.flatMap fun param => 38 :: param.render) := by
        simp [Token.bytes, empty]
      rw [shape]
      exact ⟨_, _, List.splitOn_append_cons_self_of_not_mem assigned _, .inr param.missing_value⟩
    · have noAmpersand : 38 ∉ param.value.bytes := by
        intro member
        rcases List.mem_cons.mp member with first | later
        · exact empty first.symm
        · exact (value_rest later).1 rfl
      have whole : 38 ∉ param.render := by
        simp [render, broken, noAmpersand]
      have shape : param.key.bytes ++ 61 :: (param.value.bytes ++ params.flatMap fun param => 38 :: param.render) =
          param.render ++ params.flatMap fun param => 38 :: param.render := by
        simp [render]
      rw [shape]
      refine ⟨param.render, _, splitOn_item whole params, ?_⟩
      by_cases unnamed : param.key.first = 61
      · exact .inr (param.missing_key unnamed _)
      · left
        rw [render, cutAt_append (param.no_equals unnamed)]
        exact ⟨rfl, rfl, ⟨param.no_equals unnamed, broken⟩, noAmpersand⟩

/-- Where each part has a key and a value, the parameters are the parts. -/
theorem entries_of_items (params : List AcceptedParam) {fields : List (Bytes × Bytes)}
    (split : (itemsOf (renderAccepted params)).mapM (cutAt 61) = some fields)
    (filled : ∀ field ∈ fields, Filled field) :
    params.map AcceptedParam.entry = fields ∧ ∀ param ∈ params, param.Separate := by
  induction params generalizing fields with
  | nil =>
    cases split
    exact ⟨rfl, by simp⟩
  | cons param params ih =>
    obtain ⟨item, items, first, kind⟩ := param.first_item params
    rw [first] at split
    obtain ⟨field, others, found, onward, rfl⟩ := mapM_cons_some split
    rcases kind with ⟨whole, rfl, separate⟩ | missing
    · obtain rfl := Option.some.inj (found.symm.trans whole)
      obtain ⟨entries, separates⟩ := ih onward fun field member => filled field (by simp [member])
      exact ⟨by rw [List.map_cons, entries], List.forall_mem_cons.mpr ⟨separate, separates⟩⟩
    · exact absurd (filled field (by simp)) (missing field found)

/-- Parameters without a stray separator are the parts of the query. -/
theorem items_of_entries (params : List AcceptedParam) (separate : ∀ param ∈ params, param.Separate) :
    (itemsOf (renderAccepted params)).mapM (cutAt 61) = some (params.map AcceptedParam.entry) := by
  induction params with
  | nil => rfl
  | cons param params ih =>
    obtain ⟨⟨first, key⟩, value⟩ := separate param (by simp)
    have whole : 38 ∉ param.render := by
      simp [AcceptedParam.render, key, value]
    have start : itemsOf (renderAccepted (param :: params)) = param.render :: itemsOf (renderAccepted params) := by
      rw [← splitOn_item whole]
      rfl
    have onward := ih fun other member => separate other (by simp [member])
    rw [start, List.mapM_cons, AcceptedParam.render, cutAt_append first, onward]
    rfl

end Items

/-- The states that have the request line up to the slash of its version behind them, errors included. -/
def HttpRequestDecodeState.beyondLine : HttpRequestDecodeState → Bool
  | .start | .method | .beforeUri | .inUri | .beforeUriParamKey | .uriParamKey | .beforeUriParamValue | .uriParamValue
  | .beforeProtocol | .protocol => false
  | _ => true

section Beyond

variable {scan : HeadScan}

theorem HeadScan.feed_beyond (beyond : scan.decodeState.beyondLine = true) (ch : UInt8) :
    (scan.feed ch).decodeState.beyondLine = true ∧ (scan.feed ch).strUrl = scan.strUrl ∧
      (scan.feed ch).requestParams = scan.requestParams ∧ (scan.feed ch).strProtocol = scan.strProtocol := by
  unfold feed
  cases state : scan.decodeState <;> rw [state] at beyond <;>
    simp only [HttpRequestDecodeState.beyondLine] at beyond ⊢ <;>
    grind

/-- The rest of the head adds nothing to the request line. -/
theorem HeadScan.read_beyond (beyond : scan.decodeState.beyondLine = true) (bytes : Bytes) :
    (scan.read bytes).strUrl = scan.strUrl ∧ (scan.read bytes).requestParams = scan.requestParams ∧
      (scan.read bytes).strProtocol = scan.strProtocol ∧ scan.handed .uriParamValue bytes = [] := by
  induction bytes generalizing scan with
  | nil => exact ⟨rfl, rfl, rfl, rfl⟩
  | cons ch bytes ih =>
    have notValue : scan.decodeState ≠ .uriParamValue := by
      intro state
      rw [state] at beyond
      cases beyond
    obtain ⟨onward, url, params, protocol⟩ := feed_beyond beyond ch
    obtain ⟨sameUrl, sameParams, sameProtocol, noCalls⟩ := ih onward
    have first : scan.read (ch :: bytes) = (scan.feed ch).read bytes := rfl
    rw [first, handed_elsewhere notValue]
    exact ⟨sameUrl.trans url, sameParams.trans params, sameProtocol.trans protocol, noCalls⟩

/-- What is stored of an accepted request line. -/
theorem of_line (line : AcceptedLine) (rest : Bytes) :
    (HeadScan.of (line.render ++ rest)).strUrl = line.url.bytes ∧
      (HeadScan.of (line.render ++ rest)).requestParams =
        StringMap.insertAll {} (line.params.map AcceptedParam.entry) ∧
      (HeadScan.of (line.render ++ rest)).strProtocol = line.protocol.bytes ∧
      ({} : HeadScan).handed .uriParamValue (line.render ++ rest) = line.params.map AcceptedParam.entry := by
  obtain ⟨key, token, read, calls⟩ := HeadScan.read_line line
  have beyond : (({} : HeadScan).read line.render).decodeState.beyondLine = true := by
    rw [read]
    rfl
  have whole : ({} : HeadScan).read (line.render ++ rest) = (({} : HeadScan).read line.render).read rest :=
    HeadScan.read_append _ _ _
  obtain ⟨url, params, protocol, noCalls⟩ := HeadScan.read_beyond beyond rest
  rw [read] at url params protocol whole
  refine ⟨?_, ?_, ?_, ?_⟩
  · exact (congrArg (·.strUrl) whole).trans url
  · exact (congrArg (·.requestParams) whole).trans params
  · exact (congrArg (·.strProtocol) whole).trans protocol
  · rw [HeadScan.handed_append, calls, noCalls, List.append_nil]

end Beyond

/-- The request holds the parts of the line. -/
structure AcceptedLine.StoredIn (line : AcceptedLine) (req : SHttpRequest) : Prop where
  url : req.strUrl = line.url.bytes
  params : req.requestParams = StringMap.insertAll {} (line.params.map AcceptedParam.entry)
  protocol : req.strProtocol = line.protocol.bytes

section Stored

variable {line : AcceptedLine} {rest bytes : Bytes} {req : SHttpRequest}

theorem line_of_parsed (parsed : ({} : SHttpRequest).parseInternal bytes bytes.length behind = .ok req)
    (passes : req.decodeState.pastVersion = true) :
    ∃ line rest, bytes = AcceptedLine.render line ++ rest ∧ line.StoredIn req := by
  have head := head_of_parsed parsed
  have state : req.decodeState = (HeadScan.of bytes).decodeState := congrArg ParsedHead.decodeState head
  have past : (lexState bytes).pastVersion = true := by
    apply lexState_passes rfl
    rw [← state]
    exact passes
  obtain ⟨line, rest, rfl⟩ := exists_line past
  obtain ⟨url, params, protocol, _⟩ := of_line line rest
  exact ⟨line, rest, rfl, (congrArg ParsedHead.strUrl head).trans url,
    (congrArg ParsedHead.requestParams head).trans params, (congrArg ParsedHead.strProtocol head).trans protocol⟩

theorem items_render (line : AcceptedLine) (rest : Bytes) :
    queryItems (targetOf (line.render ++ rest)) = itemsOf (renderAccepted line.params) := by
  rw [queryItems, (line.path_render rest).2]

theorem AcceptedLine.StoredIn.plainLine (stored : line.StoredIn req) (clean : CleanLine (line.render ++ rest) req) :
    PlainLine (line.render ++ rest) := by
  have separate : ∀ param ∈ line.params, param.Separate := by
    intro param member
    have entry : param.entry ∈ line.params.map AcceptedParam.entry := List.mem_map_of_mem member
    obtain ⟨value, found⟩ := StringMap.find?_insertAll_mem entry
    rw [← stored.params] at found
    have handed := clean.unmerged param.entry (by rw [(of_line line rest).2.2.2]; exact entry)
    exact ⟨⟨(clean.params _ _ found).1.2.1, handed.1⟩, handed.2⟩
  have slash : line.protocol.first ≠ 47 := by
    intro first
    apply clean.protocol.1
    rw [stored.protocol, Token.bytes, first]
    exact List.mem_cons_self
  refine ⟨?_, ?_, line.params.map AcceptedParam.entry, ?_, ?_, ?_⟩
  · rw [(line.path_render rest).1, ← stored.url]
    exact clean.url.2.2
  · rw [line.protocol_render, if_neg slash, ← stored.protocol]
    refine ⟨?_, clean.protocol.2⟩
    rw [stored.protocol]
    exact List.cons_ne_nil _ _
  · rw [items_render]
    exact items_of_entries line.params separate
  · intro field member
    obtain ⟨param, _, rfl⟩ := List.mem_map.mp member
    exact ⟨List.cons_ne_nil _ _, List.cons_ne_nil _ _⟩
  · intro key value found
    rw [← stored.params] at found
    obtain ⟨⟨oneLine, _⟩, oneLine', _⟩ := clean.params key value found
    exact ⟨oneLine, oneLine'⟩

theorem AcceptedLine.StoredIn.cleanLine (stored : line.StoredIn req) (plain : PlainLine (line.render ++ rest)) :
    CleanLine (line.render ++ rest) req := by
  obtain ⟨plainPath, plainProtocol, fields, split, filled, unbroken⟩ := plain
  rw [items_render] at split
  obtain ⟨rfl, separate⟩ := entries_of_items line.params split filled
  rw [line.protocol_render] at plainProtocol
  have slash : line.protocol.first ≠ 47 := by
    intro first
    rw [if_pos first] at plainProtocol
    exact plainProtocol.1 rfl
  rw [if_neg slash] at plainProtocol
  refine ⟨?_, ?_, ?_, ?_⟩
  · have path := (line.path_render rest).1
    rw [stored.url, ← path]
    refine ⟨?_, ?_, plainPath⟩
    · rw [path, Token.bytes, line.url_first]
      rfl
    · intro member
      have passed := List.mem_takeWhile_imp member
      cases passed
  · rw [stored.protocol]
    refine ⟨?_, plainProtocol.2⟩
    intro member
    rcases List.mem_cons.mp member with first | later
    · exact slash first.symm
    · exact line.protocol_rest later
  · intro key value found
    rw [stored.params] at found
    obtain ⟨oneLine, oneLine'⟩ := unbroken key value found
    obtain ⟨param, member, entry⟩ := List.mem_map.mp (StringMap.mem_of_find?_insertAll found)
    obtain ⟨rfl, rfl⟩ := Prod.mk.inj entry
    exact ⟨⟨oneLine, (separate param member).key⟩, oneLine', (separate param member).value⟩
  · rw [(of_line line rest).2.2.2]
    intro entry member
    obtain ⟨param, inLine, rfl⟩ := List.mem_map.mp member
    exact ⟨(separate param inLine).key.2, (separate param inLine).value⟩

end Stored

/-- A request line that comes past its version is stored clean exactly when its path and its
protocol are plain and each part of its query has a key and a value. -/
theorem cleanLine_iff {bytes : Bytes} {req : SHttpRequest}
    (parsed : ({} : SHttpRequest).parseInternal bytes bytes.length behind = .ok req)
    (passes : req.decodeState.pastVersion = true) :
    CleanLine bytes req ↔ PlainLine bytes := by
  obtain ⟨line, rest, rfl, stored⟩ := line_of_parsed parsed passes
  exact ⟨stored.plainLine, stored.cleanLine⟩

/-- A head without headers, with this query. -/
def queryHead (query : String) : Bytes := ascii "GET /a?" ++ ascii query ++ ascii " HTTP/1.1\r\n\r\n"

theorem queryHead_clean :
    ∃ req, ({} : SHttpRequest).parseInternal (queryHead "k=1") (queryHead "k=1").length [] = .ok req ∧
    CleanLine (queryHead "k=1") req := by
  have inside : BodyInside (queryHead "k=1") (queryHead "k=1").length [] := by decide +kernel
  obtain ⟨req, done, head⟩ := SHttpRequest.parseInternal_whole inside
  have state : req.decodeState = _ := congrArg ParsedHead.decodeState head
  have passes : req.decodeState.pastVersion = true := by
    rw [state]
    decide +kernel
  have path : pathOf (targetOf (queryHead "k=1")) = ascii "/a" := by decide +kernel
  have protocol : protocolOf (queryHead "k=1") = ascii "HTTP" := by decide +kernel
  refine ⟨req, done, (cleanLine_iff done passes).mpr ⟨?_, ?_, [(ascii "k", ascii "1")], ?_, ?_, ?_⟩⟩
  · rw [path]
    exact oneLine_of_all rfl
  · rw [protocol]
    exact ⟨by decide, oneLine_of_all rfl⟩
  · decide +kernel
  · intro field member
    rw [List.mem_singleton.mp member]
    exact ⟨by decide, by decide⟩
  · intro key value found
    obtain ⟨rfl, rfl⟩ := Prod.mk.inj (List.mem_singleton.mp (StringMap.mem_of_find?_insertAll found))
    exact ⟨oneLine_of_all rfl, oneLine_of_all rfl⟩

/-- A key without a value takes the next parameter for its value. -/
theorem queryHead_not_clean : ∃ req,
    ({} : SHttpRequest).parseInternal (queryHead "k=&x=1") (queryHead "k=&x=1").length [] = .ok req ∧
      req.decodeState.pastVersion = true ∧ ¬ CleanLine (queryHead "k=&x=1") req := by
  have inside : BodyInside (queryHead "k=&x=1") (queryHead "k=&x=1").length [] := by decide +kernel
  obtain ⟨req, done, head⟩ := SHttpRequest.parseInternal_whole inside
  have state : req.decodeState = _ := congrArg ParsedHead.decodeState head
  have params : req.requestParams = _ := congrArg ParsedHead.requestParams head
  have value : req.requestParams.find? (ascii "k") = some (ascii "&x=1") := by
    rw [params]
    decide +kernel
  refine ⟨req, done, ?_, ?_⟩
  · rw [state]
    decide +kernel
  · intro clean
    have noAmpersand := (clean.params _ _ value).2.2
    exact noAmpersand (by decide)

end WSlyh.Http
