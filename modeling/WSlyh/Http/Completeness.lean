import WSlyh.Http.ParseRefinement
import WSlyh.Http.Connection
import Mathlib.Tactic.SplitIfs

/-! How `ParseRead` tells a request that is complete from one that is not. -/

namespace WSlyh.Http

open Libc

/-- The connection holds exactly these bytes, and its parser has not run. -/
structure CHttp.Holds (conn : CHttp) (bytes : Bytes) : Prop where
  buffer : conn.readData.length = maxReadDataBuffSize
  readIdx : conn.readIdx = bytes.length
  readData : conn.readData.take conn.readIdx = bytes
  httpParse : conn.httpParse = {}

theorem CHttp.holds_receive (conn : CHttp) (sockfd triggerMode : Int)
    (fits : bytes.length ≤ maxReadDataBuffSize) :
    ((conn.init sockfd triggerMode).1.receive bytes).Holds bytes := by
  have start : (conn.init sockfd triggerMode).1.readIdx = 0 := rfl
  have length : ((conn.init sockfd triggerMode).1.receive bytes).readIdx = bytes.length := Nat.zero_add _
  refine ⟨?_, length, ?_, rfl⟩
  · simp only [receive, overwrite, init, List.length_append, List.length_take, List.length_drop,
      List.length_replicate]
    omega
  · rw [length]
    simp [receive, start, overwrite]

/-- The answer of `ParseRead` to a scan that has read `size` bytes in one go. -/
def HeadScan.verdict (scan : HeadScan) (size : Nat) : HttpRequestDecodeState :=
  if scan.nextPos = size then
    if scan.decodeState = .body ∧ scan.strMethod = ascii "GET" then .complete
    else if scan.decodeState.isInvalid then scan.decodeState
    else .opened
  else scan.decodeState

/-- A body that ends within the request ends within the buffer. -/
theorem CHttp.Holds.bodyInside {conn : CHttp} (holds : conn.Holds part) (before : part <+: request)
    (inside : BodyInside request request.length []) (fits : request.length ≤ maxReadDataBuffSize) (behind : Bytes) :
    BodyInside conn.readData conn.readIdx behind := by
  have bounded : conn.readIdx ≤ request.length := by
    rw [holds.readIdx]
    exact before.length_le
  refine (inside.mono bounded).congr ?_ ?_
  · rw [holds.readData, holds.readIdx]
    exact List.prefix_iff_eq_take.mp before
  · rw [List.append_nil, List.length_append, holds.buffer]
    omega

theorem CHttp.Holds.parseRead {conn : CHttp} (holds : conn.Holds bytes) (behind : Bytes)
    (inside : BodyInside conn.readData conn.readIdx (conn.writeData ++ behind)) :
    ∃ conn', conn.parseRead behind = .ok (conn', (HeadScan.of bytes).verdict bytes.length) := by
  have lengths := congrArg List.length holds.readData
  rw [List.length_take, ← holds.readIdx] at lengths
  have fits : conn.readIdx ≤ conn.readData.length := by omega
  have fresh := SHttpRequest.parseInternal_fresh conn.readData (conn.writeData ++ behind) fits
  rw [if_pos inside] at fresh
  obtain ⟨req, parsed, head⟩ := fresh
  rw [holds.readData] at head
  have nextPos : req.nextPos = (HeadScan.of bytes).nextPos := congrArg ParsedHead.nextPos head
  have state : req.decodeState = (HeadScan.of bytes).decodeState := congrArg ParsedHead.decodeState head
  have method : req.strMethod = (HeadScan.of bytes).strMethod := congrArg ParsedHead.strMethod head
  refine ⟨{ conn with httpParse := req }, ?_⟩
  unfold CHttp.parseRead HeadScan.verdict
  rw [holds.httpParse, parsed, ← nextPos, ← state, ← method, ← holds.readIdx]
  simp only [bind, Except.bind, SHttpRequest.getLen, SHttpRequest.getStatus, beq_iff_eq,
    Bool.and_eq_true, Bool.not_eq_true']
  split_ifs
  all_goals simp_all

/-- `ParseRead` calls the whole request complete and every part of it open, whatever lies behind the
connection in the memory. -/
structure TellsComplete (request : Bytes) : Prop where
  whole : ∀ conn : CHttp, conn.Holds request → ∀ behind, ∃ conn', conn.parseRead behind = .ok (conn', .complete)
  part : ∀ part, part <+: request → part ≠ request → ∀ conn : CHttp, conn.Holds part →
    ∀ behind, ∃ conn', conn.parseRead behind = .ok (conn', .opened)

theorem tellsComplete_iff_verdict (fits : request.length ≤ maxReadDataBuffSize)
    (inside : BodyInside request request.length []) :
    TellsComplete request ↔ (HeadScan.of request).verdict request.length = .complete ∧
      ∀ part, part <+: request → part ≠ request → (HeadScan.of part).verdict part.length = .opened := by
  have judged {part : Bytes} {verdict : HttpRequestDecodeState} (before : part <+: request) :
      (∀ conn : CHttp, conn.Holds part → ∀ behind, ∃ conn', conn.parseRead behind = .ok (conn', verdict)) ↔
        (HeadScan.of part).verdict part.length = verdict := by
    constructor
    · intro always
      have holds := (default : CHttp).holds_receive 0 0 (before.length_le.trans fits)
      obtain ⟨conn', parsed⟩ := holds.parseRead [] (holds.bodyInside before inside fits _)
      obtain ⟨conn'', same⟩ := always _ holds []
      rw [parsed] at same
      cases same
      rfl
    · rintro rfl conn holds behind
      exact holds.parseRead behind (holds.bodyInside before inside fits _)
  constructor
  · rintro ⟨whole, part⟩
    exact ⟨(judged List.prefix_rfl).mp whole, fun front before proper => (judged before).mp (part front before proper)⟩
  · rintro ⟨whole, part⟩
    exact ⟨(judged List.prefix_rfl).mpr whole,
      fun front before proper => (judged before).mpr (part front before proper)⟩

/-- What the headers say about the body; a request without `Content-Length` is a `GET`. -/
inductive SHttpRequest.Announces (req : SHttpRequest) : Option Nat → Prop where
  | length (found : req.headers.find? contentLengthName = some text) (decimal : decimalValue text = some n) :
      Announces req (some n)
  | nothing (absent : req.headers.find? contentLengthName = none) (get : req.strMethod = ascii "GET") :
      Announces req none

/-- A request as the parser accepts it: it reads `front` up to the last byte of the blank
line, and the announced number of body bytes follows. -/
structure WellFormed (front body : Bytes) (req : SHttpRequest) (contentLength : Option Nat) : Prop where
  parsed : ({} : SHttpRequest).parseInternal front front.length [] = .ok req
  blankLine : req.decodeState = .crLfCr
  announced : req.Announces contentLength
  bodyLength : body.length = contentLength.getD 0

theorem HeadScan.verdict_early (going : (HeadScan.of part).decodeState.isFinal = false)
    (head : (HeadScan.of part).decodeState ≠ .body) : (HeadScan.of part).verdict part.length = .opened := by
  have length : (HeadScan.of part).nextPos = part.length := by
    rcases of_nextPos part with final | length
    · rw [going] at final
      cases final
    · exact length
  have valid : (HeadScan.of part).decodeState.isInvalid = false := by
    simp only [HttpRequestDecodeState.isFinal, Bool.or_eq_false_iff] at going
    exact going.1
  rw [verdict, if_pos length, if_neg (fun body => head body.1), if_neg (by simp [valid])]

/-- Up to the blank line nothing looks complete. -/
theorem HeadScan.verdict_front (blankLine : (HeadScan.of front).decodeState = .crLfCr) (before : part <+: front) :
    (HeadScan.of part).verdict part.length = .opened :=
  verdict_early (of_front blankLine before).1 (of_front blankLine before).2

/-- The last byte of the blank line decides between a body and none. -/
theorem HeadScan.of_blankLine (blankLine : (HeadScan.of front).decodeState = .crLfCr) :
    (HeadScan.of (front ++ [LF])).nextPos = (front ++ [LF]).length ∧
      (HeadScan.of (front ++ [LF])).strMethod = (HeadScan.of front).strMethod ∧
      (HeadScan.of (front ++ [LF])).headers = (HeadScan.of front).headers ∧
      (HeadScan.of (front ++ [LF])).decodeState =
        match (HeadScan.of front).headers.find? contentLengthName with
        | some text => if atoi text > 0 then .body else .complete
        | none => .body := by
  have length : (HeadScan.of front).nextPos = front.length := by
    rcases of_nextPos front with final | length
    · rw [blankLine] at final
      cases final
    · exact length
  have newline : (LF == LF) = true := rfl
  rw [of_snoc, List.length_append, List.length_singleton, ← length]
  unfold feed
  simp only [blankLine, newline, if_true]
  cases found : (HeadScan.of front).headers.find? contentLengthName with
  | some text =>
    dsimp only
    split <;> exact ⟨rfl, rfl, rfl, rfl⟩
  | none => exact ⟨rfl, rfl, rfl, rfl⟩

/-- One byte of the body is consumed, whatever its length. -/
theorem HeadScan.verdict_body (body : (HeadScan.of head).decodeState = .body)
    (nextPos : (HeadScan.of head).nextPos = head.length) (ch : UInt8) (more : Bytes) :
    (HeadScan.of (head ++ ch :: more)).verdict (head ++ ch :: more).length =
      if more = [] then .opened else .complete := by
  have last : (HeadScan.of (head ++ ch :: more)).decodeState = .complete ∧
      (HeadScan.of (head ++ ch :: more)).nextPos = head.length + 1 := by
    have fed : ((HeadScan.of head).feed ch).decodeState = .complete ∧
        ((HeadScan.of head).feed ch).nextPos = head.length + 1 := by
      unfold feed
      rw [body, ← nextPos]
      exact ⟨rfl, rfl⟩
    rw [of_append, List.foldl_cons, foldl_final (by rw [fed.1]; rfl)]
    exact fed
  obtain ⟨complete, position⟩ := last
  unfold verdict
  rw [complete, position, List.length_append, List.length_cons]
  cases more with
  | nil => simp [HttpRequestDecodeState.isInvalid]
  | cons next more => simp

theorem HeadScan.verdict_head (body : (HeadScan.of head).decodeState = .body)
    (nextPos : (HeadScan.of head).nextPos = head.length) :
    (HeadScan.of head).verdict head.length =
      if (HeadScan.of head).strMethod = ascii "GET" then .complete else .opened := by
  unfold verdict
  rw [if_pos nextPos, body]
  simp [HttpRequestDecodeState.isInvalid]

theorem prefix_request {part front body : Bytes} (before : part <+: front ++ LF :: body) :
    part <+: front ∨ ∃ rest, rest <+: body ∧ part = front ++ [LF] ++ rest := by
  rcases List.prefix_or_prefix_of_prefix before (List.prefix_append front _) with inFront | ⟨rest, rfl⟩
  · exact .inl inFront
  · rcases List.prefix_cons_iff.mp ((List.prefix_append_right_inj front).mp before) with rfl | ⟨tail, rfl, inBody⟩
    · exact .inl (by rw [List.append_nil])
    · exact .inr ⟨tail, inBody, by simp⟩

/-- The parts that end before the blank line does are all open. -/
theorem HeadScan.verdict_parts (blankLine : (HeadScan.of front).decodeState = .crLfCr) (body : Bytes) :
    (∀ part, part <+: front ++ LF :: body → part ≠ front ++ LF :: body →
        (HeadScan.of part).verdict part.length = .opened) ↔
      ∀ rest, rest <+: body → rest ≠ body →
        (HeadScan.of (front ++ [LF] ++ rest)).verdict (front ++ [LF] ++ rest).length = .opened := by
  have split : front ++ LF :: body = front ++ [LF] ++ body := by simp
  constructor
  · intro parts rest before proper
    refine parts _ ?_ ?_
    · rw [split]
      exact (List.prefix_append_right_inj _).mpr before
    · rw [split]
      exact fun same => proper (List.append_cancel_left same)
  · intro rests part before proper
    rcases prefix_request before with inFront | ⟨rest, inBody, rfl⟩
    · exact verdict_front blankLine inFront
    · refine rests rest inBody fun same => proper ?_
      rw [split, same]

theorem WellFormed.scan {body : Bytes} (formed : WellFormed front body req contentLength) :
    req.head = (HeadScan.of front).toParsedHead := by
  have head := SHttpRequest.head_of_fresh formed.parsed le_rfl
  rwa [List.take_length] at head

/-- The body that is copied is the one that follows. -/
theorem WellFormed.bodyInside {body : Bytes} (formed : WellFormed front body req contentLength)
    (fits : (front ++ LF :: body).length ≤ maxReadDataBuffSize) :
    BodyInside (front ++ LF :: body) (front ++ LF :: body).length [] := by
  have scan := formed.scan
  have blankLine : (HeadScan.of front).decodeState = .crLfCr := by
    rw [← formed.blankLine]
    exact (congrArg ParsedHead.decodeState scan).symm
  have headers : (HeadScan.of front).headers = req.headers := (congrArg ParsedHead.headers scan).symm
  obtain ⟨nextPos, _, sameHeaders, state⟩ := HeadScan.of_blankLine blankLine
  have length := formed.bodyLength
  intro pos below isBody
  rw [List.append_nil]
  rcases prefix_request (List.take_prefix pos (front ++ LF :: body)) with inFront | ⟨rest, inBody, same⟩
  · exact absurd isBody (HeadScan.of_front blankLine inFront).2
  rw [same] at isBody ⊢
  cases rest with
  | nil =>
    have position := congrArg List.length same
    simp only [List.length_take, List.length_append, List.length_cons, List.length_nil] at position below fits ⊢
    rw [List.append_nil, ParsedHead.bodyEnd, sameHeaders, headers, nextPos, List.length_append, List.length_singleton]
    cases formed.announced with
    | nothing absent get =>
      rw [Option.getD_none] at length
      omega
    | @length text n found decimal =>
      rw [Option.getD_some] at length
      have buffer : maxReadDataBuffSize = 5120 := rfl
      have value : atoi text = n := atoi_decimal decimal (by omega)
      simp only [found, value]
      omega
  | cons ch rest =>
    rw [HeadScan.of_append, List.foldl_cons] at isBody
    have final : ((HeadScan.of (front ++ [LF])).feed ch).decodeState = .complete := by
      have bodyOrComplete : (HeadScan.of (front ++ [LF])).decodeState = .body ∨
          (HeadScan.of (front ++ [LF])).decodeState = .complete := by
        rw [state]
        split
        · split
          · exact .inl rfl
          · exact .inr rfl
        · exact .inl rfl
      rcases bodyOrComplete with now | now
      · rw [HeadScan.feed, now]
      · rw [HeadScan.feed_final (by rw [now]; rfl), now]
    rw [HeadScan.foldl_final (by rw [final]; rfl), final] at isBody
    cases isBody

/-- The verdicts on a body of which the parser consumes one byte. -/
theorem HeadScan.verdicts_body (body : (HeadScan.of head).decodeState = .body)
    (nextPos : (HeadScan.of head).nextPos = head.length) (bytes : Bytes) (nonempty : bytes ≠ []) :
    ((HeadScan.of (head ++ bytes)).verdict (head ++ bytes).length = .complete ∧
        ∀ rest, rest <+: bytes → rest ≠ bytes →
          (HeadScan.of (head ++ rest)).verdict (head ++ rest).length = .opened) ↔
      bytes.length = 2 ∧ (HeadScan.of head).strMethod ≠ ascii "GET" := by
  have atHead := verdict_head body nextPos
  match bytes with
  | [one] =>
    rw [verdict_body body nextPos]
    simp
  | [one, two] =>
    constructor
    · rintro ⟨_, parts⟩
      have empty := parts [] (List.nil_prefix) (by simp)
      rw [List.append_nil, atHead] at empty
      refine ⟨rfl, fun get => ?_⟩
      rw [if_pos get] at empty
      cases empty
    · rintro ⟨_, method⟩
      refine ⟨by rw [verdict_body body nextPos]; simp, fun rest before proper => ?_⟩
      rcases List.prefix_cons_iff.mp before with rfl | ⟨tail, rfl, second⟩
      · rw [List.append_nil, atHead, if_neg method]
      · rcases List.prefix_cons_iff.mp second with rfl | ⟨last, rfl, third⟩
        · rw [verdict_body body nextPos, if_pos rfl]
        · exact absurd (by rw [List.prefix_nil.mp third]) proper
  | one :: two :: three :: more =>
    refine iff_of_false ?_ (by simp)
    rintro ⟨_, parts⟩
    have early := parts [one, two] ⟨three :: more, rfl⟩ (by simp)
    rw [verdict_body body nextPos] at early
    cases early

/-- `ParseRead` tells exactly those requests from their parts that announce no body at all,
and those that announce two bytes and are not a `GET`. -/
theorem parseRead_tellsComplete_iff {body : Bytes} (formed : WellFormed front body req contentLength)
    (fits : (front ++ LF :: body).length ≤ maxReadDataBuffSize) :
    TellsComplete (front ++ LF :: body) ↔
      contentLength = none ∨ contentLength = some 2 ∧ req.strMethod ≠ ascii "GET" := by
  have scan := formed.scan
  have blankLine : (HeadScan.of front).decodeState = .crLfCr := by
    rw [← formed.blankLine]
    exact (congrArg ParsedHead.decodeState scan).symm
  have headers : (HeadScan.of front).headers = req.headers := (congrArg ParsedHead.headers scan).symm
  have method : (HeadScan.of front).strMethod = req.strMethod := (congrArg ParsedHead.strMethod scan).symm
  obtain ⟨nextPos, sameMethod, _, state⟩ := HeadScan.of_blankLine blankLine
  rw [headers] at state
  rw [method] at sameMethod
  have length := formed.bodyLength
  have small : body.length ≤ maxReadDataBuffSize := by
    rw [List.length_append, List.length_cons] at fits
    omega
  have split : front ++ LF :: body = front ++ [LF] ++ body := by simp
  rw [tellsComplete_iff_verdict fits (formed.bodyInside fits), HeadScan.verdict_parts blankLine, split]
  cases formed.announced with
  | nothing absent get =>
    have empty : body = [] := List.length_eq_zero_iff.mp length
    rw [absent] at state
    rw [empty, List.append_nil, HeadScan.verdict_head state nextPos, sameMethod, if_pos get]
    refine iff_of_true ⟨rfl, fun rest before proper => ?_⟩ (.inl rfl)
    exact absurd (List.prefix_nil.mp before) proper
  | @length text n found decimal =>
    rw [Option.getD_some] at length
    have value : atoi text = n := atoi_decimal decimal (by
      have buffer : maxReadDataBuffSize = 5120 := rfl
      omega)
    simp only [found, value] at state
    rw [← sameMethod]
    by_cases none : n = 0
    · rw [if_neg (by omega)] at state
      have empty : body = [] := List.length_eq_zero_iff.mp (by omega)
      refine iff_of_false ?_ (by simp [none])
      rintro ⟨whole, _⟩
      rw [empty, List.append_nil, HeadScan.verdict, if_pos nextPos, state] at whole
      simp [HttpRequestDecodeState.isInvalid] at whole
    · rw [if_pos (by omega)] at state
      have nonempty : body ≠ [] := fun empty => none (by rw [← length, empty]; rfl)
      rw [HeadScan.verdicts_body state nextPos body nonempty, length]
      simp

/-- The head of a `POST`, up to the last byte of its blank line. -/
def postFront (length : String) : Bytes :=
  ascii ("POST /f HTTP/1.1\r\nContent-Length: " ++ length ++ "\r\n\r")

def postParsed (length : String) : SHttpRequest where
  strMethod := ascii "POST"
  strUrl := ascii "/f"
  strProtocol := ascii "HTTP"
  strVersion := ascii "1.1"
  headers := ⟨[(contentLengthName, ascii length)]⟩
  nextPos := (postFront length).length
  decodeState := .crLfCr

theorem post_two_tellsComplete :
    TellsComplete (postFront "2" ++ LF :: ascii "ab") ↔
      some 2 = none ∨ some 2 = some 2 ∧ (postParsed "2").strMethod ≠ ascii "GET" := by
  have formed : WellFormed (postFront "2") (ascii "ab") (postParsed "2") (some 2) :=
    ⟨by decide +kernel, rfl, .length rfl (by decide +kernel), rfl⟩
  exact parseRead_tellsComplete_iff formed (by decide +kernel)

/-- A body of no bytes is announced, and the whole request stays open for good. -/
theorem post_zero_not_tellsComplete :
    WellFormed (postFront "0") [] (postParsed "0") (some 0) ∧
      (postFront "0" ++ LF :: []).length ≤ maxReadDataBuffSize ∧ ¬ TellsComplete (postFront "0" ++ LF :: []) := by
  have formed : WellFormed (postFront "0") [] (postParsed "0") (some 0) :=
    ⟨by decide +kernel, rfl, .length rfl (by decide +kernel), rfl⟩
  have fits : (postFront "0" ++ LF :: []).length ≤ maxReadDataBuffSize := by decide +kernel
  refine ⟨formed, fits, fun tells => ?_⟩
  have whole := ((tellsComplete_iff_verdict fits (formed.bodyInside fits)).mp tells).1
  have verdict : (HeadScan.of (postFront "0" ++ LF :: [])).verdict (postFront "0" ++ LF :: []).length = .opened := by
    decide +kernel
  rw [verdict] at whole
  cases whole

end WSlyh.Http
