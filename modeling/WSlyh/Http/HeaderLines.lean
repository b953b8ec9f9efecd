import WSlyh.Http.AcceptedScan
import Mathlib.Data.List.DropRight

/-! The lines of a header section, and when the automaton reads one header from each. -/

namespace WSlyh.Http

open Libc

/-- The lines that CR LF separate. -/
def crlfLines : Bytes → List Bytes
  | [] => [[]]
  | [ch] => [[ch]]
  | ch :: next :: rest =>
    if ch = CR ∧ next = LF then [] :: crlfLines rest else (crlfLines (next :: rest)).modifyHead (ch :: ·)

/-- The lines before the blank one. -/
def sectionLines (bytes : Bytes) : List Bytes := (crlfLines bytes).takeWhile (· ≠ [])

/-- What stands before and behind the first `sep`. -/
def cutAt (sep : UInt8) (text : Bytes) : Option (Bytes × Bytes) :=
  match text.dropWhile (· != sep) with
  | [] => none
  | _ :: behind => some (text.takeWhile (· != sep), behind)

/-- A line is split at its first colon; the blanks around it belong to neither side. -/
def headerField (line : Bytes) : Option (Bytes × Bytes) :=
  (cutAt 58 line).map fun field => (field.1.rdropWhile isblank, field.2.dropWhile isblank)

/-- What is read in the state `crLf` and after it: the bytes behind the request line. -/
def headerSection (state : HttpRequestDecodeState) : Bytes → Bytes
  | [] => []
  | ch :: rest => if state = .crLf then ch :: rest else headerSection (state.after ch) rest

def Unbroken (text : Bytes) : Prop := CR ∉ text ∧ LF ∉ text

/-- One header for each line, and none of them with a line break in it. -/
structure OneHeaderPerLine (bytes : Bytes) (req : SHttpRequest) : Prop where
  unbroken : ∀ name value, req.headers.find? name = some value → Unbroken name ∧ Unbroken value
  lines : ∃ fields, (sectionLines (headerSection .start bytes)).mapM headerField = some fields ∧
    req.headers = StringMap.insertAll {} fields ∧ ({} : HeadScan).handed .headerValue bytes = fields

/-- Both sides are there. -/
def Filled (field : Bytes × Bytes) : Prop := field.1 ≠ [] ∧ field.2 ≠ []

/-- Each line has a name and a value, and no header that is kept has a line break. -/
def PlainLines (lines : List Bytes) : Prop :=
  ∃ fields, lines.mapM headerField = some fields ∧ (∀ field ∈ fields, Filled field) ∧
    ∀ name value, (StringMap.insertAll {} fields).find? name = some value → Unbroken name ∧ Unbroken value

section Cut

variable {sep : UInt8} {front : Bytes} {field : Bytes × Bytes}

theorem cutAt_append (absent : sep ∉ front) (back : Bytes) :
    cutAt sep (front ++ sep :: back) = some (front, back) := by
  have passes : ∀ ch ∈ front, (ch != sep) = true := by
    intro ch member
    rw [bne_iff_ne]
    rintro rfl
    exact absent member
  rw [cutAt, List.dropWhile_append_of_pos passes, List.takeWhile_append_of_pos passes]
  simp

theorem cutAt_none (absent : sep ∉ front) : cutAt sep front = none := by
  have passed : front.dropWhile (· != sep) = [] := by
    rw [List.dropWhile_eq_nil_iff]
    intro ch member
    rw [bne_iff_ne]
    rintro rfl
    exact absent member
  rw [cutAt, passed]

/-- Where only the first byte can be the separator, nothing stands before it. -/
theorem cutAt_first {first : UInt8} (absent : sep ∉ front) (cut : cutAt sep (first :: front) = some field) :
    field.1 = [] := by
  by_cases same : first = sep
  · subst same
    have cuts := @cutAt_append first [] List.not_mem_nil front
    rw [List.nil_append, cut] at cuts
    rw [Option.some.inj cuts]
  · have absent' : sep ∉ first :: front := by
      intro member
      rcases List.mem_cons.mp member with here | later
      · exact same here.symm
      · exact absent later
    rw [cutAt_none absent'] at cut
    cases cut

end Cut

/-- The part splits into no two sides that are both there. -/
def Missing (split : Bytes → Option (Bytes × Bytes)) (part : Bytes) : Prop :=
  ∀ field, split part = some field → ¬ Filled field

theorem mapM_cons_some {split : Bytes → Option (Bytes × Bytes)} {part : Bytes} {parts : List Bytes}
    {fields : List (Bytes × Bytes)} (whole : (part :: parts).mapM split = some fields) :
    ∃ field others, split part = some field ∧ parts.mapM split = some others ∧ fields = field :: others := by
  rw [List.mapM_cons] at whole
  obtain ⟨field, found, onward⟩ := Option.bind_eq_some_iff.mp whole
  obtain ⟨others, rest, same⟩ := Option.bind_eq_some_iff.mp onward
  exact ⟨field, others, found, rest, (Option.some.inj same).symm⟩

section Lines

variable {front rest : Bytes}

theorem modifyHead_nil_append (lines : List Bytes) : lines.modifyHead ([] ++ ·) = lines := by
  cases lines <;> rfl

theorem crlfLines_break (rest : Bytes) : crlfLines (CR :: LF :: rest) = [] :: crlfLines rest := by
  rw [crlfLines, if_pos ⟨rfl, rfl⟩]

theorem crlfLines_cons {ch : UInt8} (joins : ch = CR → rest.head? ≠ some LF) :
    crlfLines (ch :: rest) = (crlfLines rest).modifyHead (ch :: ·) := by
  cases rest with
  | nil => rfl
  | cons next rest =>
    rw [crlfLines, if_neg]
    rintro ⟨rfl, rfl⟩
    exact joins rfl rfl

theorem crlfLines_plain (plain : CR ∉ front) (rest : Bytes) :
    crlfLines (front ++ rest) = (crlfLines rest).modifyHead (front ++ ·) := by
  induction front with
  | nil => exact (modifyHead_nil_append _).symm
  | cons ch front ih =>
    rw [List.mem_cons, not_or] at plain
    rw [List.cons_append, crlfLines_cons fun same => absurd same.symm plain.1, ih plain.2, List.modifyHead_modifyHead]
    rfl

/-- A text that no line feed follows is part of the first line, or a line ends in it. -/
theorem crlfLines_append (text : Bytes) (follows : rest.head? ≠ some LF) :
    crlfLines (text ++ rest) = (crlfLines rest).modifyHead (text ++ ·) ∨
      ∃ line more, text = line ++ CR :: LF :: more ∧ crlfLines (text ++ rest) = line :: crlfLines (more ++ rest) := by
  induction text with
  | nil => exact .inl (modifyHead_nil_append _).symm
  | cons ch text ih =>
    by_cases breaks : ch = CR ∧ text.head? = some LF
    · obtain ⟨rfl, next⟩ := breaks
      obtain ⟨more, rfl⟩ := List.head?_eq_some_iff.mp next
      exact .inr ⟨[], more, rfl, crlfLines_break _⟩
    · have joins : ch = CR → (text ++ rest).head? ≠ some LF := by
        intro same
        cases text with
        | nil => exact follows
        | cons next text =>
          intro newline
          exact breaks ⟨same, newline⟩
      rw [List.cons_append, crlfLines_cons joins]
      rcases ih with whole | ⟨line, more, rfl, ends⟩
      · left
        rw [whole, List.modifyHead_modifyHead]
        rfl
      · right
        refine ⟨ch :: line, more, rfl, ?_⟩
        rw [ends]
        rfl

theorem headerField_colon {name : Bytes} (noColon : 58 ∉ name) (value : Bytes) :
    headerField (name ++ 58 :: value) = some (name.rdropWhile isblank, value.dropWhile isblank) := by
  rw [headerField, cutAt_append noColon]
  rfl

/-- A line that only a first byte can give a colon has no name. -/
theorem headerField_unnamed {first : UInt8} (noColon : 58 ∉ rest) : Missing headerField (first :: rest) := by
  intro field found filled
  obtain ⟨cut, cuts, rfl⟩ := Option.map_eq_some_iff.mp found
  apply filled.1
  rw [cutAt_first noColon cuts]
  rfl

end Lines

section OneHeader

variable {before state : HttpRequestDecodeState} {rest : Bytes} {field : Bytes × Bytes}

/-- Behind its first byte no name has a colon or a blank. -/
theorem AcceptedHeader.name_rest {header : AcceptedHeader} {ch : UInt8} (member : ch ∈ header.name.rest) :
    ch ≠ 58 ∧ isblank ch = false := by
  have taken := header.name.takes ch member
  simp only [HttpRequestDecodeState.takes] at taken
  grind

theorem AcceptedHeader.name_first (header : AcceptedHeader) :
    header.name.first ≠ CR ∧ isblank header.name.first = false := by
  have opens := header.name.opens
  simp only [HttpRequestDecodeState.opens] at opens
  grind

theorem AcceptedHeader.value_first (header : AcceptedHeader) : isblank header.value.first = false := by
  have opens := header.value.opens
  simp only [HttpRequestDecodeState.opens] at opens
  grind

theorem AcceptedHeader.value_rest (header : AcceptedHeader) : CR ∉ header.value.rest := by
  intro member
  have taken := header.value.takes CR member
  cases taken

/-- The first line of a value is all of it, or empty. -/
theorem crlfLines_value (value : Token .headerAfterColon .headerValue) (noReturn : CR ∉ value.rest) (rest : Bytes) :
    crlfLines (value.bytes ++ CR :: LF :: rest) = value.bytes :: crlfLines rest ∨
      ∃ lines, crlfLines (value.bytes ++ CR :: LF :: rest) = [] :: lines := by
  have follows : (CR :: LF :: rest).head? ≠ some LF := by
    intro newline
    cases newline
  rcases crlfLines_append value.bytes follows with whole | ⟨line, more, split, ends⟩
  · left
    rw [whole, crlfLines_break]
    simp
  · right
    cases line with
    | nil => exact ⟨_, ends⟩
    | cons ch line =>
      rw [Token.bytes, List.cons_append, List.cons.injEq] at split
      exact absurd (by simp [split.2]) noReturn

/-- The line of a header, with what its value leaves there. -/
def AcceptedHeader.text (header : AcceptedHeader) (value : Bytes) : Bytes :=
  header.name.bytes ++ (header.beforeColon.bytes ++ 58 :: (header.afterColon.bytes ++ value))

theorem AcceptedHeader.field_text (header : AcceptedHeader) (value : Bytes) (named : header.name.first ≠ 58) :
    headerField (header.text value) =
      some (header.name.bytes, (header.afterColon.bytes ++ value).dropWhile isblank) := by
  have noColon : 58 ∉ header.name.bytes ++ header.beforeColon.bytes := by
    intro member
    rcases List.mem_append.mp member with inName | inGap
    · rcases List.mem_cons.mp inName with first | later
      · exact named first.symm
      · exact (name_rest later).1 rfl
    · cases header.beforeColon.allowed 58 inGap
  have noBlank : header.name.bytes.reverse.dropWhile isblank = header.name.bytes.reverse := by
    rw [List.dropWhile_eq_self_iff]
    intro nonempty
    have member : header.name.bytes.reverse[0] ∈ header.name.bytes := List.mem_reverse.mp (List.getElem_mem nonempty)
    rcases List.mem_cons.mp member with first | later
    · rw [first, header.name_first.2]
      exact Bool.false_ne_true
    · rw [(name_rest later).2]
      exact Bool.false_ne_true
  have gapDropped : (header.name.bytes ++ header.beforeColon.bytes).rdropWhile isblank = header.name.bytes := by
    rw [List.rdropWhile, List.reverse_append, List.dropWhile_append_of_pos, noBlank, List.reverse_reverse]
    intro ch member
    exact header.beforeColon.allowed ch (List.mem_reverse.mp member)
  rw [text, ← List.append_assoc, headerField_colon noColon, gapDropped]

theorem AcceptedHeader.missing_name (header : AcceptedHeader) (value : Bytes) (unnamed : header.name.first = 58) :
    Missing headerField (header.text value) := by
  intro field split filled
  have nothing := @headerField_colon [] List.not_mem_nil
    (header.name.rest ++ (header.beforeColon.bytes ++ 58 :: (header.afterColon.bytes ++ value)))
  rw [text, Token.bytes, unnamed, List.cons_append] at split
  rw [List.nil_append, split] at nothing
  cases nothing
  exact filled.1 rfl

theorem AcceptedHeader.missing_value (header : AcceptedHeader) : Missing headerField (header.text []) := by
  by_cases unnamed : header.name.first = 58
  · exact header.missing_name [] unnamed
  · intro field split filled
    rw [header.field_text _ unnamed, List.append_nil, List.dropWhile_eq_nil_iff.mpr header.afterColon.allowed] at split
    cases split
    exact filled.2 rfl

theorem AcceptedHeader.missing_colon (header : AcceptedHeader) {line more : Bytes}
    (cut : header.name.bytes = line ++ CR :: more) : line ≠ [] ∧ Missing headerField line := by
  cases line with
  | nil =>
    rw [Token.bytes, List.nil_append, List.cons.injEq] at cut
    exact absurd cut.1 header.name_first.1
  | cons first line =>
    rw [Token.bytes, List.cons_append, List.cons.injEq] at cut
    refine ⟨List.cons_ne_nil _ _, headerField_unnamed ?_⟩
    intro member
    exact (@name_rest header _ (by simp [cut.2, member])).1 rfl

theorem AcceptedHeader.field_whole (header : AcceptedHeader) (named : header.name.first ≠ 58) :
    headerField (header.text header.value.bytes) = some header.entry := by
  have valuePart : (header.afterColon.bytes ++ header.value.bytes).dropWhile isblank = header.value.bytes := by
    rw [List.dropWhile_append_of_pos header.afterColon.allowed, Token.bytes, List.dropWhile_cons_of_neg]
    rw [header.value_first]
    exact Bool.false_ne_true
  rw [header.field_text _ named, valuePart, entry]

/-- Where the line ends that a header starts: behind the header, behind its colon, or in its name. -/
theorem AcceptedHeader.first_crlfLine (header : AcceptedHeader) (rest : Bytes) :
    ∃ line lines, crlfLines (header.render ++ rest) = line :: lines ∧
      (line = header.text header.value.bytes ∧ lines = crlfLines rest ∨ line = header.text [] ∨
        ∃ more, header.name.bytes = line ++ CR :: more) := by
  have plain : CR ∉ header.beforeColon.bytes ++ 58 :: header.afterColon.bytes := by
    intro member
    rcases List.mem_append.mp member with inGap | member
    · cases header.beforeColon.allowed CR inGap
    · rcases List.mem_cons.mp member with same | inGap
      · cases same
      · cases header.afterColon.allowed CR inGap
  have shape : header.render ++ rest = header.name.bytes ++
    ((header.beforeColon.bytes ++ 58 :: header.afterColon.bytes) ++
      (header.value.bytes ++ CR :: LF :: rest)) := by
    simp [render]
  have follows : ((header.beforeColon.bytes ++ 58 :: header.afterColon.bytes) ++
      (header.value.bytes ++ CR :: LF :: rest)).head? ≠ some LF := by
    intro newline
    cases gap : header.beforeColon.bytes with
    | nil =>
      rw [gap] at newline
      cases newline
    | cons ch more =>
      rw [gap] at newline
      cases newline
      cases header.beforeColon.allowed LF (by simp [gap])
  have middle := crlfLines_plain plain (header.value.bytes ++ CR :: LF :: rest)
  rw [shape]
  rcases crlfLines_append header.name.bytes follows with whole | ⟨line, more, split, ends⟩
  · rw [whole, middle]
    rcases crlfLines_value header.value header.value_rest rest with valued | ⟨lines, empty⟩
    · refine ⟨header.text header.value.bytes, crlfLines rest, ?_, .inl ⟨rfl, rfl⟩⟩
      rw [valued]
      simp [text]
    · refine ⟨header.text [], lines, ?_, .inr (.inl rfl)⟩
      rw [empty]
      simp [text]
  · exact ⟨line, _, ends, .inr (.inr ⟨LF :: more, split⟩)⟩

theorem sectionLines_cons {bytes line : Bytes} {lines : List Bytes} (first : crlfLines bytes = line :: lines)
    (nonempty : line ≠ []) : sectionLines bytes = line :: lines.takeWhile (· ≠ []) := by
  rw [sectionLines, first, List.takeWhile_cons_of_pos (by simp [nonempty])]

theorem AcceptedHeader.text_ne_nil (header : AcceptedHeader) (value : Bytes) : header.text value ≠ [] := by
  rw [text, Token.bytes]
  exact List.cons_ne_nil _ _

/-- The first line is the header, unless a part of it is missing there. -/
theorem AcceptedHeader.first_line (header : AcceptedHeader) (rest : Bytes) :
    ∃ line lines, sectionLines (header.render ++ rest) = line :: lines ∧
      (headerField line = some header.entry ∧ lines = sectionLines rest ∨ Missing headerField line) := by
  obtain ⟨line, lines, first, ⟨rfl, rfl⟩ | rfl | ⟨more, cut⟩⟩ := header.first_crlfLine rest
  · refine ⟨_, _, sectionLines_cons first (header.text_ne_nil _), ?_⟩
    by_cases unnamed : header.name.first = 58
    · exact .inr (header.missing_name _ unnamed)
    · exact .inl ⟨header.field_whole unnamed, rfl⟩
  · exact ⟨_, _, sectionLines_cons first (header.text_ne_nil _), .inr header.missing_value⟩
  · obtain ⟨nonempty, missing⟩ := header.missing_colon cut
    exact ⟨_, _, sectionLines_cons first nonempty, .inr missing⟩

/-- Where each line has a name and a value, the headers are the lines. -/
theorem entries_of_lines (headers : List AcceptedHeader) (rest : Bytes) {fields : List (Bytes × Bytes)}
    (split : (sectionLines (headers.flatMap AcceptedHeader.render ++ CR :: LF :: rest)).mapM headerField = some fields)
    (filled : ∀ field ∈ fields, Filled field) : headers.map AcceptedHeader.entry = fields := by
  induction headers generalizing fields with
  | nil =>
    rw [List.flatMap_nil, List.nil_append, sectionLines, crlfLines_break] at split
    cases split
    rfl
  | cons header headers ih =>
    rw [List.flatMap_cons, List.append_assoc] at split
    obtain ⟨line, lines, first, kind⟩ := header.first_line (headers.flatMap AcceptedHeader.render ++ CR :: LF :: rest)
    rw [first] at split
    obtain ⟨field, others, found, onward, rfl⟩ := mapM_cons_some split
    rcases kind with ⟨whole, rfl⟩ | missing
    · obtain rfl := Option.some.inj (found.symm.trans whole)
      rw [List.map_cons, ih onward fun field member => filled field (by simp [member])]
    · exact absurd (filled field (by simp)) (missing field found)

end OneHeader

/-- The states up to the first line feed that ends a line. -/
def HttpRequestDecodeState.inRequestLine : HttpRequestDecodeState → Bool
  | .start | .method | .beforeUri | .inUri | .beforeUriParamKey | .uriParamKey | .beforeUriParamValue | .uriParamValue
  | .beforeProtocol | .protocol | .beforeVersion | .versionSplit | .version | .whenCr => true
  | _ => false

theorem not_pastHead_of_early {state : HttpRequestDecodeState} (early : state.inRequestLine = true) :
    state.pastHead = false := by
  cases state <;> first | rfl | cases early

section Section

variable {scan : HeadScan} {bytes : Bytes}

theorem headerSection_crLf (bytes : Bytes) : headerSection .crLf bytes = bytes := by
  cases bytes <;> rfl

theorem HeadScan.feed_requestLine (early : scan.decodeState.inRequestLine = true) (ch : UInt8) :
    (scan.feed ch).headers = scan.headers ∧
      ((scan.feed ch).decodeState.inRequestLine = true ∨ (scan.feed ch).decodeState = .crLf ∨
        (scan.feed ch).decodeState.isInvalid = true) := by
  unfold feed
  cases state : scan.decodeState <;> rw [state] at early <;>
    simp only [HttpRequestDecodeState.inRequestLine] at early ⊢ <;>
    grind [HttpRequestDecodeState.isInvalid]

/-- Nothing is in the headers where the header section starts. -/
theorem HeadScan.read_section (early : scan.decodeState.inRequestLine = true) (noHeaders : scan.headers = {})
    (passes : (scan.decodeState.afterAll bytes).pastHead = true) :
    ∃ start : HeadScan, start.decodeState = .crLf ∧ start.headers = {} ∧
      scan.read bytes = start.read (headerSection scan.decodeState bytes) ∧
      scan.handed .headerValue bytes = start.handed .headerValue (headerSection scan.decodeState bytes) ∧
      (HttpRequestDecodeState.crLf.afterAll (headerSection scan.decodeState bytes)).pastHead = true := by
  induction bytes generalizing scan with
  | nil =>
    rw [HttpRequestDecodeState.afterAll_nil, not_pastHead_of_early early] at passes
    cases passes
  | cons ch bytes ih =>
    have notSection : scan.decodeState ≠ .crLf := by
      intro state
      rw [state] at early
      cases early
    have notBlank : scan.decodeState ≠ .crLfCr := by
      intro state
      rw [state] at early
      cases early
    have notValue : scan.decodeState ≠ .headerValue := by
      intro state
      rw [state] at early
      cases early
    obtain ⟨same, next⟩ := feed_requestLine early ch
    rw [noHeaders] at same
    rw [HttpRequestDecodeState.afterAll_cons, ← feed_decodeState notBlank] at passes
    have onward : scan.read (ch :: bytes) = (scan.feed ch).read bytes := rfl
    rw [headerSection, if_neg notSection, ← feed_decodeState notBlank, onward, handed_elsewhere notValue]
    rcases next with early | crLf | invalid
    · exact ih early same passes
    · rw [crLf] at passes ⊢
      rw [headerSection_crLf]
      exact ⟨scan.feed ch, crLf, same, rfl, rfl, passes⟩
    · rw [not_invalid pastHead_rejects passes] at invalid
      cases invalid

theorem HeadScan.feed_pastHead (past : scan.decodeState.pastHead = true) (ch : UInt8) :
    (scan.feed ch).headers = scan.headers ∧ (scan.feed ch).decodeState.pastHead = true := by
  have kind : scan.decodeState = .body ∨ scan.decodeState = .complete := by
    cases state : scan.decodeState <;> rw [state] at past <;> simp [HttpRequestDecodeState.pastHead] at past ⊢
  rcases kind with body | complete
  · simp [feed, body, HttpRequestDecodeState.pastHead]
  · rw [feed_final (by rw [complete]; rfl)]
    exact ⟨rfl, past⟩

/-- The headers are complete behind the blank line. -/
theorem HeadScan.read_pastHead (past : scan.decodeState.pastHead = true) (bytes : Bytes) :
    (scan.read bytes).headers = scan.headers ∧ scan.handed .headerValue bytes = [] := by
  induction bytes generalizing scan with
  | nil => exact ⟨rfl, rfl⟩
  | cons ch bytes ih =>
    have notValue : scan.decodeState ≠ .headerValue := by
      intro state
      rw [state] at past
      cases past
    obtain ⟨same, onward⟩ := feed_pastHead past ch
    have first : scan.read (ch :: bytes) = (scan.feed ch).read bytes := rfl
    rw [first, handed_elsewhere notValue, (ih onward).1, same]
    exact ⟨rfl, (ih onward).2⟩

/-- The headers of an accepted text are read off its header section. -/
theorem exists_entries (passes : (lexState bytes).pastHead = true) :
    ∃ (headers : List AcceptedHeader) (rest : Bytes),
      headerSection .start bytes = headers.flatMap AcceptedHeader.render ++ CR :: LF :: rest ∧
      (HeadScan.of bytes).headers = StringMap.insertAll {} (headers.map AcceptedHeader.entry) ∧
      ({} : HeadScan).handed .headerValue bytes = headers.map AcceptedHeader.entry := by
  obtain ⟨start, crLf, noHeaders, read, calls, passes⟩ := @HeadScan.read_section {} bytes rfl rfl passes
  obtain ⟨headers, rest, split⟩ := exists_headers passes
  obtain ⟨key, token, headersRead, handed⟩ := HeadScan.read_headers crLf headers
  have initial : ({} : HeadScan).decodeState = .start := rfl
  rw [initial, split] at read calls
  have ended : (start.read (headers.flatMap AcceptedHeader.render)).decodeState = .crLf := by
    rw [headersRead]
    exact crLf
  have stored : (start.read (headers.flatMap AcceptedHeader.render)).headers =
      StringMap.insertAll {} (headers.map AcceptedHeader.entry) := by
    rw [headersRead, noHeaders]
  have blankLine := HeadScan.feed_blankLine ended
  have past : (((start.read (headers.flatMap AcceptedHeader.render)).feed CR).feed LF).decodeState.pastHead =
    true := by
    rw [blankLine]
    simp only []
    split <;> rfl
  obtain ⟨kept, noCalls⟩ := HeadScan.read_pastHead past rest
  have unchanged : (((start.read (headers.flatMap AcceptedHeader.render)).feed CR).feed LF).headers =
      (start.read (headers.flatMap AcceptedHeader.render)).headers := by
    rw [blankLine]
  refine ⟨headers, rest, split, ?_, ?_⟩
  · have same : (HeadScan.of bytes).headers = (({} : HeadScan).read bytes).headers := rfl
    rw [same, read, HeadScan.read_append]
    exact kept.trans (unchanged.trans stored)
  · rw [calls, HeadScan.handed_append, handed, HeadScan.handed_blankLine ended, noCalls, List.append_nil]

end Section

/-- One call on a whole text leaves what the scan makes of it. -/
theorem head_of_parsed {bytes : Bytes} {req : SHttpRequest}
    (parsed : ({} : SHttpRequest).parseInternal bytes bytes.length behind = .ok req) :
    req.head = (HeadScan.of bytes).toParsedHead := by
  have head := SHttpRequest.head_of_fresh parsed le_rfl
  rwa [List.take_length] at head

/-- The bytes tell how far a text comes. -/
theorem lexState_passes {goal : HttpRequestDecodeState → Bool} {bytes : Bytes} (body : goal .body = true)
    (passes : goal (HeadScan.of bytes).decodeState = true) : goal (lexState bytes) = true := by
  rcases HeadScan.of_decodeState bytes with same | ⟨_, atBody⟩
  · rw [← same]
    exact passes
  · rw [atBody]
    exact body

/-- A head that passes its blank line has one header for each line exactly when each line has a
name and a value and no header that is kept has a line break in it. -/
theorem oneHeaderPerLine_iff {bytes : Bytes} {req : SHttpRequest}
    (parsed : ({} : SHttpRequest).parseInternal bytes bytes.length behind = .ok req)
    (passes : req.decodeState = .body ∨ req.decodeState = .complete) :
    OneHeaderPerLine bytes req ↔ PlainLines (sectionLines (headerSection .start bytes)) := by
  have head := head_of_parsed parsed
  have state : req.decodeState = (HeadScan.of bytes).decodeState := congrArg ParsedHead.decodeState head
  have past : (lexState bytes).pastHead = true := by
    apply lexState_passes rfl
    rw [← state]
    rcases passes with body | complete
    · rw [body]
      rfl
    · rw [complete]
      rfl
  obtain ⟨headers, rest, split, stored, calls⟩ := exists_entries past
  have kept : req.headers = StringMap.insertAll {} (headers.map AcceptedHeader.entry) :=
    (congrArg ParsedHead.headers head).trans stored
  constructor
  · rintro ⟨unbroken, fields, lines, inserted, handed⟩
    refine ⟨fields, lines, ?_, ?_⟩
    · rw [← handed, calls]
      intro field member
      obtain ⟨header, _, rfl⟩ := List.mem_map.mp member
      exact ⟨List.cons_ne_nil _ _, List.cons_ne_nil _ _⟩
    · rw [← inserted]
      exact unbroken
  · rintro ⟨fields, lines, filled, unbroken⟩
    have entries : headers.map AcceptedHeader.entry = fields := by
      apply entries_of_lines headers rest _ filled
      rw [← split]
      exact lines
    rw [entries] at kept calls
    exact ⟨by rw [kept]; exact unbroken, fields, lines, kept, calls⟩

/-- A head whose only header has this value, after a blank. -/
def hostHead (value : String) : Bytes := ascii "GET / HTTP/1.1\r\nHost:" ++ ascii value ++ ascii "\r\n\r\n"

theorem hostHead_lines : ∃ req, ({} : SHttpRequest).parseInternal (hostHead " a") (hostHead " a").length [] = .ok req ∧
    OneHeaderPerLine (hostHead " a") req := by
  have inside : BodyInside (hostHead " a") (hostHead " a").length [] := by decide +kernel
  obtain ⟨req, done, head⟩ := SHttpRequest.parseInternal_whole inside
  have state : req.decodeState = .body := by
    have same : req.decodeState = _ := congrArg ParsedHead.decodeState head
    rw [same]
    decide +kernel
  refine ⟨req, done, (oneHeaderPerLine_iff done (.inl state)).mpr ⟨[(ascii "Host", ascii "a")], ?_, ?_, ?_⟩⟩
  · decide +kernel
  · intro field member
    rw [List.mem_singleton.mp member]
    exact ⟨by decide, by decide⟩
  · intro name value found
    obtain ⟨rfl, rfl⟩ := Prod.mk.inj (List.mem_singleton.mp (StringMap.mem_of_find?_insertAll found))
    exact ⟨⟨by decide, by decide⟩, by decide, by decide⟩

/-- Nothing stands behind the colon, and the next line becomes the value. -/
theorem hostHead_not_lines : ∃ req,
    ({} : SHttpRequest).parseInternal (hostHead "\r\nContent-Length: 5")
      (hostHead "\r\nContent-Length: 5").length [] = .ok req ∧
      req.decodeState = .body ∧ ¬ OneHeaderPerLine (hostHead "\r\nContent-Length: 5") req := by
  have inside : BodyInside (hostHead "\r\nContent-Length: 5") (hostHead "\r\nContent-Length: 5").length [] := by
    decide +kernel
  obtain ⟨req, done, head⟩ := SHttpRequest.parseInternal_whole inside
  have state : req.decodeState = _ := congrArg ParsedHead.decodeState head
  have headers : req.headers = _ := congrArg ParsedHead.headers head
  have value : req.headers.find? (ascii "Host") = some (ascii "\r\nContent-Length: 5") := by
    rw [headers]
    decide +kernel
  refine ⟨req, done, ?_, ?_⟩
  · rw [state]
    decide +kernel
  · intro lines
    have broken := (lines.unbroken _ _ value).2.1
    exact broken (by decide)

end WSlyh.Http
