import WSlyh.Http.Completeness
import WSlyh.Http.Isolation
import WSlyh.Http.RoundTrip
import WSlyh.Http.Session

/-! A whole `GET`, from its first byte to the last byte of the response: the request may arrive in any
number of reads, as long as none of them ends inside a token. -/

namespace WSlyh.Http

open Libc Lib

/-- The connection has received these bytes, and its parser has read some of them, up to a place between
two tokens. -/
structure CHttp.Scanning (conn : CHttp) (bytes : Bytes) : Prop where
  fits : conn.Fits
  input : conn.input = bytes
  scanned : ∃ n ≤ conn.readIdx, conn.httpParse.head = (HeadScan.of (conn.readData.take n)).toParsedHead ∧
    (HeadScan.of (conn.readData.take n)).decodeState.inToken = false

/-- No token is open behind these bytes. -/
def wholeTokens (bytes : Bytes) : Bool := !(lexState bytes).inToken

theorem HeadScan.of_wholeTokens (whole : wholeTokens bytes = true) :
    (HeadScan.of bytes).decodeState.inToken = false := by
  rcases HeadScan.of_decodeState bytes with same | ⟨complete, _⟩
  · rw [same]
    exact Bool.not_eq_true' _ |>.mp whole
  · rw [complete]
    rfl

namespace CHttp

variable {conn conn' : CHttp} {bytes : Bytes}

theorem scanning_init (conn : CHttp) (sockfd triggerMode : Int) : (conn.init sockfd triggerMode).1.Scanning [] :=
  ⟨⟨List.length_replicate, Nat.zero_le _⟩, rfl, 0, Nat.zero_le _, rfl, rfl⟩

theorem Scanning.length (scanning : conn.Scanning bytes) : bytes.length = conn.readIdx := by
  rw [← scanning.input, CHttp.input, List.length_take, scanning.fits.buffer, Nat.min_eq_left scanning.fits.readIdx]

/-- The bytes that are read come behind those that are there. -/
theorem Scanning.read (scanning : conn.Scanning bytes) (results : List RecvResult) :
    (conn.read results).1.Scanning (bytes ++ (conn.read results).1.input.drop conn.readIdx) := by
  have keeps := scanning.fits.read_keeps results
  obtain ⟨n, below, head, between⟩ := scanning.scanned
  have front : (conn.read results).1.input.take conn.readIdx = bytes := by
    rw [CHttp.input, List.take_take, Nat.min_eq_left keeps.grows, keeps.input, scanning.input]
  refine ⟨keeps.fits, ?_, n, below.trans keeps.grows, ?_, ?_⟩
  · calc (conn.read results).1.input
      _ = (conn.read results).1.input.take conn.readIdx ++ (conn.read results).1.input.drop conn.readIdx :=
        (List.take_append_drop ..).symm
      _ = _ := by rw [front]
  all_goals
    have same : (conn.read results).1.readData.take n = conn.readData.take n := by
      have kept := congrArg (List.take n) keeps.input
      rwa [CHttp.input, List.take_take, List.take_take, Nat.min_eq_left below] at kept
    rw [same]
  · obtain ⟨readData, readIdx, frame⟩ := conn.read_frame results
    rw [frame]
    exact head
  · exact between

theorem readStatus_verdict {httpParse : SHttpRequest} {scan : HeadScan} (head : httpParse.head = scan.toParsedHead)
    (size : Nat) : readStatus httpParse size = scan.verdict size := by
  have nextPos : httpParse.nextPos = scan.nextPos := congrArg ParsedHead.nextPos head
  have state : httpParse.decodeState = scan.decodeState := congrArg ParsedHead.decodeState head
  have method : httpParse.strMethod = scan.strMethod := congrArg ParsedHead.strMethod head
  unfold readStatus HeadScan.verdict
  simp only [SHttpRequest.getLen, SHttpRequest.getStatus, nextPos, state, method, beq_iff_eq, Bool.and_eq_true,
    Bool.not_eq_true']
  split_ifs
  all_goals simp_all

/-- Where the bytes end between two tokens, `ParseRead` judges them as if they had come in one piece. -/
theorem Scanning.parseRead (scanning : conn.Scanning bytes) (whole : wholeTokens bytes = true)
    (inside : BodyInside bytes bytes.length []) (behind : Bytes) :
    ∃ conn', conn.parseRead behind = .ok (conn', (HeadScan.of bytes).verdict bytes.length) ∧ conn'.Scanning bytes := by
  obtain ⟨n, below, head, between⟩ := scanning.scanned
  have fits : conn.readIdx ≤ conn.readData.length := by
    rw [scanning.fits.buffer]
    exact scanning.fits.readIdx
  have bytes_ : conn.readData.take conn.readIdx = bytes := scanning.input
  have bodyInside : BodyInside conn.readData conn.readIdx (conn.writeData ++ behind) := by
    rw [scanning.length] at inside
    refine inside.congr (bytes_.trans (List.take_of_length_le scanning.length.le).symm) ?_
    rw [List.append_nil, scanning.length, List.length_append]
    omega
  obtain ⟨httpParse, parsed, scanned⟩ := SHttpRequest.parseInternal_intact head between below fits bodyInside
  rw [bytes_] at scanned
  refine ⟨{ conn with httpParse }, ?_, ⟨scanning.fits.buffer, scanning.fits.readIdx⟩, scanning.input,
    conn.readIdx, le_rfl,
    ?_, ?_⟩
  · rw [parseRead_eq, parsed, scanning.length, ← readStatus_verdict scanned]
    rfl
  · exact scanned.trans (congrArg (fun bytes => (HeadScan.of bytes).toParsedHead) bytes_.symm)
  · show (HeadScan.of (conn.readData.take conn.readIdx)).decodeState.inToken = false
    rw [bytes_]
    exact HeadScan.of_wholeTokens whole

end CHttp

namespace RequestText

variable {text : RequestText} {part : Bytes}

/-- No header announces a body. -/
def Bodiless (text : RequestText) : Prop := (text.headers.map RequestHeader.entry).lookup contentLengthName = none

/-- A `GET` is complete with its blank line, since the parser then waits for a body that a `GET` need not have. -/
theorem verdict_render (get : text.method.bytes = ascii "GET") (bodiless : text.Bodiless) :
    (HeadScan.of text.render).verdict text.render.length = .complete := by
  have head := HeadScan.of_render text
  rw [bodiless] at head
  have state : (HeadScan.of text.render).decodeState = .body := congrArg ParsedHead.decodeState head
  have position : (HeadScan.of text.render).nextPos = text.render.length := congrArg ParsedHead.nextPos head
  have method : (HeadScan.of text.render).strMethod = ascii "GET" := (congrArg ParsedHead.strMethod head).trans get
  rw [HeadScan.verdict, if_pos position, if_pos ⟨state, method⟩]

/-- Before that it is open. -/
theorem verdict_part (before : part <+: text.render) (proper : part ≠ text.render) :
    (HeadScan.of part).verdict part.length = .opened := by
  rw [render_snoc] at before proper
  rcases prefix_request before with inFront | ⟨rest, nothing, same⟩
  · exact HeadScan.verdict_front text.crLfCr_lines inFront
  · rw [List.prefix_nil.mp nothing, List.append_nil] at same
    exact absurd same proper

end RequestText

namespace Session

variable {session session' : Session} {text : RequestText} {contents : FileAddr → Bytes}

/-- A fair step; and `HttpParse` does not run where a token is open. -/
def Orderly (session : Session) (step : ConnStep) : Prop :=
  session.Fair step ∧ match step with
    | .httpParse _ => wholeTokens session.heard = true
    | _ => True

/-- Until the request is there the connection listens and says nothing. Once `HttpParse` has seen all of it, it
is answered as complete, and a file that is found goes out. -/
structure Serves (session : Session) (text : RequestText) (contents : FileAddr → Bytes) : Prop where
  waits : session.heard ≠ text.render → session.answers = [] ∧ session.sent = [] ∧
    (session.run.live = true → session.run.queued = true ∨ session.run.armed = some .epollIn)
  answers : session.heard = text.render → session.run.live = true → session.run.queued = false →
    ∃ answer, session.answers.head? = some (.complete, answer)
  complete : ∀ status answer, session.answers.head? = some (status, answer) → status = .complete
  serves : ∀ answer stat, session.answers.head? = some (.complete, answer) → replyTo .complete answer = .file stat →
    session.Conveying stat (answer.mmap stat.stSize) contents

/-- The request before it is answered: the connection is listening, or `HttpParse` is still to run. -/
structure Listening (session : Session) (text : RequestText) : Prop where
  answers : session.answers = []
  scanning : session.run.conn.Scanning session.heard
  attentive : session.run.live = true →
    session.run.queued = true ∨ session.run.armed = some .epollIn ∧ session.heard ≠ text.render

inductive Progress (session : Session) (text : RequestText) : Prop where
  | listening (listening : session.Listening text)
  | answered (heard : session.heard = text.render) (answer : FileAnswer)
      (first : session.answers.head? = some (.complete, answer))

theorem heard_grows (taken : session.act step = some (.ok session')) : session.heard <+: session'.heard := by
  obtain ⟨run', _, rfl⟩ := of_act taken
  cases step with
  | read results => exact List.prefix_append ..
  | httpParse answer =>
    simp only [noted]
    split
    · split <;> exact List.prefix_rfl
    · exact List.prefix_rfl
  | init | write | close => exact List.prefix_rfl

theorem answers_grow (taken : session.act step = some (.ok session')) : session.answers <+: session'.answers := by
  obtain ⟨run', _, rfl⟩ := of_act taken
  cases step with
  | httpParse answer =>
    simp only [noted]
    split
    · split
      · exact List.prefix_rfl
      · exact List.prefix_append ..
    · exact List.prefix_rfl
  | init | read | write | close => exact List.prefix_rfl

theorem Listening.read (listening : session.Listening text)
    (taken : session.act (.read results) = some (.ok session')) : session'.Listening text := by
  obtain ⟨run', acted, rfl⟩ := of_act taken
  obtain ⟨_, _, conn, ret, returned, rfl⟩ := AssemblyRun.of_read acted
  have scanning := listening.scanning.read results
  refine ⟨listening.answers, ?_, fun live => .inl live⟩
  rw [returned] at scanning
  simpa only [noted, returned] using scanning

theorem Listening.httpParse (listening : session.Listening text) (get : text.method.bytes = ascii "GET")
    (bodiless : text.Bodiless) (whole : wholeTokens session.heard = true) (said : session.heard <+: text.render)
    (taken : session.act (.httpParse answer) = some (.ok session')) : session'.Progress text := by
  obtain ⟨run', acted, rfl⟩ := of_act taken
  obtain ⟨_, conn, effects, done, rfl⟩ := AssemblyRun.of_httpParse acted
  obtain ⟨read, status, parsed, _, _, ending⟩ := CHttp.httpParseTask_cases done
  obtain ⟨scanned, judged, scanning⟩ :=
    listening.scanning.parseRead whole (RequestText.bodyInside_part said []) answer.behind
  obtain ⟨rfl, rfl⟩ := Prod.mk.inj (Except.ok.inj (parsed.symm.trans judged))
  by_cases all : session.heard = text.render
  · have complete := RequestText.verdict_render get bodiless
    rw [← all] at complete
    rw [complete] at parsed
    refine .answered ?_ answer ?_
    · simp only [noted, parsed]
      exact all
    · simp only [noted, parsed, listening.answers]
      rfl
  · have opened := RequestText.verdict_part said all
    rw [opened] at ending parsed
    rcases ending with ⟨_, rfl, rfl⟩ | ⟨notOpened, _⟩ | ⟨notOpened, _⟩
    · have silent : session.noted (.httpParse answer) = session := by simp [noted, parsed]
      rw [silent]
      exact .listening ⟨listening.answers, scanning, fun _ => .inr ⟨rfl, all⟩⟩
    · exact absurd rfl notOpened
    · exact absurd rfl notOpened

/-- There is nothing to write before the request is answered. -/
theorem Listening.not_write (listening : session.Listening text) (keeps : session.run.Keeps)
    (taken : session.act (.write results) = some (.ok session')) : False := by
  obtain ⟨run', acted, _⟩ := of_act taken
  obtain ⟨live, armed, _⟩ := AssemblyRun.of_write acted
  rcases listening.attentive live with queued | ⟨watching, _⟩
  · cases (keeps.queued queued).1.symm.trans armed
  · cases watching.symm.trans armed

theorem Progress.next (progress : session.Progress text) (get : text.method.bytes = ascii "GET")
    (bodiless : text.Bodiless) (keeps : session.run.Keeps) (orderly : session.Orderly step)
    (taken : session.act step = some (.ok session')) (said : session'.heard <+: text.render) :
    session'.Progress text := by
  have before := heard_grows taken
  cases progress with
  | answered heard answer first =>
    rw [heard] at before
    obtain ⟨more, answers⟩ := answers_grow taken
    refine .answered (said.eq_of_length_le before.length_le) answer ?_
    rw [← answers, List.head?_append, first]
    rfl
  | listening listening =>
    cases step with
    | init sockfd triggerMode =>
      obtain ⟨run', acted, _⟩ := of_act taken
      cases acted
    | read results => exact .listening (listening.read taken)
    | httpParse answer => exact listening.httpParse get bodiless orderly.2 (before.trans said) taken
    | write results => exact (listening.not_write keeps taken).elim
    | close =>
      obtain ⟨run', acted, rfl⟩ := of_act taken
      obtain rfl := AssemblyRun.of_close acted
      exact .listening ⟨listening.answers, listening.scanning, nofun⟩

theorem reachable_progress (get : text.method.bytes = ascii "GET") (bodiless : text.Bodiless)
    (reachable : sessionSystem.Reachable Orderly session) (said : session.heard <+: text.render) :
    session.Progress text := by
  have kept : session.run.Keeps ∧ (session.heard <+: text.render → session.Progress text) := by
    refine reachable.invariant
      (fun session => session.run.Keeps ∧ (session.heard <+: text.render → session.Progress text)) ?_ ?_
    · rintro session ⟨conn, sockfd, triggerMode, rfl⟩
      refine ⟨AssemblyRun.keeps_start conn sockfd triggerMode, fun _ => .listening ⟨rfl, ?_, fun _ => .inr ⟨rfl, ?_⟩⟩⟩
      · exact conn.scanning_init sockfd triggerMode
      · simp [start, RequestText.render]
    · rintro session step session' ⟨keeps, progress⟩ orderly taken
      obtain ⟨run', acted, same⟩ := of_act taken
      refine ⟨?_, fun said => ?_⟩
      · rw [same]
        exact keeps.next acted
      · exact (progress ((heard_grows taken).trans said)).next get bodiless keeps orderly taken said
  exact kept.2 said

theorem Progress.serves (progress : session.Progress text) (speaks : session.Speaks contents) :
    session.Serves text contents := by
  have serves (answer : FileAnswer) (stat : FileStat) (first : session.answers.head? = some (.complete, answer)) :=
    speaks.file .complete answer stat (List.mem_of_mem_head? first)
  cases progress with
  | listening listening =>
    refine ⟨fun _ => ⟨listening.answers, speaks.silent (by simp [listening.answers]), fun live => ?_⟩, ?_, ?_, serves⟩
    · exact (listening.attentive live).imp_right fun watching => watching.1
    · intro all live parsed
      rcases listening.attentive live with queued | ⟨_, part⟩
      · cases queued.symm.trans parsed
      · exact absurd all part
    · intro status answer first
      rw [listening.answers] at first
      cases first
  | answered heard answer first =>
    refine ⟨fun part => absurd heard part, fun _ _ _ => ⟨answer, first⟩, ?_, serves⟩
    intro status other found
    cases first.symm.trans found
    rfl

end Session

/-- A client that sends a `GET` and nothing else is served: however its bytes and those of the response are
cut, the response is the one to the whole request. -/
theorem serves_of_reachable {session : Session} {text : RequestText} (get : text.method.bytes = ascii "GET")
    (bodiless : text.Bodiless) (reachable : sessionSystem.Reachable Session.Orderly session)
    (said : session.heard <+: text.render) (contents : FileAddr → Bytes) : session.Serves text contents :=
  (Session.reachable_progress get bodiless reachable said).serves
    (Session.reachable_stage (reachable.mono fun _ _ orderly => orderly.1)).2.speaks

def Session.orderly? (session : Session) (step : ConnStep) : Bool :=
  session.fair? step && match step with
    | .httpParse _ => wholeTokens session.heard
    | _ => true

theorem Session.orderly?_sound {session : Session} (may : session.orderly? step = true) : session.Orderly step := by
  unfold orderly? at may
  rw [Bool.and_eq_true] at may
  refine ⟨fair?_sound may.1, ?_⟩
  cases step with
  | httpParse answer => exact may.2
  | init | read | write | close => exact trivial

/-- `GET / HTTP/1.1` -/
def plainGet : RequestText where
  leading := ⟨[], List.all_eq_true.mp rfl⟩
  method := ⟨⟨ascii "GET", List.all_eq_true.mp rfl⟩, by decide⟩
  beforeUri := ⟨⟨ascii " ", List.all_eq_true.mp rfl⟩, by decide⟩
  path := ⟨[], List.all_eq_true.mp rfl⟩
  params := []
  beforeProtocol := ⟨⟨ascii " ", List.all_eq_true.mp rfl⟩, by decide⟩
  protocol := ⟨⟨ascii "HTTP", List.all_eq_true.mp rfl⟩, by decide⟩
  version := ⟨⟨⟨ascii "1", List.all_eq_true.mp rfl⟩, by decide⟩, [⟨⟨ascii "1", List.all_eq_true.mp rfl⟩, by decide⟩]⟩
  headers := []

/-- The request comes in three pieces, and the response goes out in two. -/
def pieces : List ConnStep :=
  [.read [.received (ascii "GET ")], .httpParse ⟨none, .null, []⟩, .read [.received (ascii "/ HTTP/1.1\r\n")],
    .httpParse ⟨none, .null, []⟩, .read [.received (ascii "\r\n")], .httpParse hundredBytes,
    .write [⟨60, .other⟩, ⟨-1, .eagain⟩], .write [⟨121, .other⟩]]

theorem pieces_serves : ∃ session : Session, session.heard = plainGet.render ∧ session.counts = [60, 121] ∧
    session.run.live = false ∧ session.Serves plainGet fun _ => List.replicate 100 65 := by
  have checked : ((System.Reachable.follow Session.act Session.orderly? (.start default 5 0) pieces).any fun session =>
      session.heard == plainGet.render && session.counts == [60, 121] && !session.run.live) = true := by decide +kernel
  obtain ⟨session, followed, state⟩ := (Option.any_eq_true ..).mp checked
  rw [Bool.and_eq_true, Bool.and_eq_true, beq_iff_eq, beq_iff_eq, Bool.not_eq_true'] at state
  obtain ⟨⟨heard, counts⟩, closed⟩ := state
  have reachable : sessionSystem.Reachable Session.Orderly session :=
    System.Reachable.followed (.init ⟨default, 5, 0, rfl⟩) (fun _ _ _ => Session.orderly?_sound)
      (fun _ _ _ => id) followed
  have bodiless : plainGet.Bodiless := rfl
  have said : session.heard <+: plainGet.render := by rw [heard]
  exact ⟨session, heard, counts, closed, serves_of_reachable rfl bodiless reachable said _⟩

end WSlyh.Http
