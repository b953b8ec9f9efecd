import WSlyh.Http.ParseRefinement
import WSlyh.Lib.Transition

/-! The body that `ParseInternal` stores. Calls on a growing part of one buffer are taken round
by round. -/

namespace WSlyh.Http

open Libc Lib

/-- The head declares a body of this length, in the range of `int`. -/
def SHttpRequest.Declares (req : SHttpRequest) (length : Nat) : Prop :=
  ∃ text, req.headers.find? contentLengthName = some text ∧ decimalValue text = some length ∧
    0 < length ∧ length < 2 ^ 31

/-- The blank line that ends the head is over at this position. -/
def EndsHead (buf : Bytes) (pos : Nat) : Prop :=
  ∃ front, buf.take pos = front ++ [LF] ∧ lexState front = .crLfCr

/-- A parser between two rounds, or between two calls. -/
structure ParseRun where
  req : SHttpRequest
  loc : ParseLocals
  size : Nat
  running : Bool

inductive ParseStep
  | call (size : Nat)
  | round
  | leave
  deriving DecidableEq

/-- The condition of the loop of `ParseInternal`. -/
def ParseRun.loops (s : ParseRun) : Bool := !s.req.decodeState.isFinal && s.req.nextPos < s.size

/-- The lengths that are passed grow, and the buffer is as long as they say. -/
def ParseRun.act (buf behind : Bytes) (s : ParseRun) : ParseStep → Option (Except StringFailure ParseRun)
  | .call size =>
    if !s.running ∧ s.size ≤ size ∧ size ≤ buf.length then some (.ok { s with loc := {}, size, running := true })
    else none
  | .round =>
    if s.running ∧ s.loops then some do
      let (req, loc) ← s.req.parseRound buf s.size behind s.loc
      .ok { s with req, loc }
    else none
  | .leave => if s.running ∧ !s.loops then some (.ok { s with running := false }) else none

def ParseRun.start : ParseRun := ⟨{}, {}, 0, false⟩

/-- The calls on one buffer, from a fresh parser on. -/
def parseSystem (buf behind : Bytes) : System ParseRun ParseStep where
  init s := s = .start
  step s step s' := s.act buf behind step = some (.ok s')

/-- A body about to be stored lies below `size`. What a complete request has stored is what
its head declares, and nothing is stored earlier. -/
structure ParseRun.BodyRight (buf : Bytes) (s : ParseRun) : Prop where
  inside : s.running = true → s.req.decodeState = .body → s.req.nextPos < s.size →
    s.req.nextPos + s.loc.bodyLength ≤ s.size
  exact : s.req.decodeState = .complete → ∀ length, s.req.Declares length →
    ∃ pos, EndsHead buf pos ∧ pos + length ≤ s.size ∧ s.req.strBody = (buf.drop pos).take length
  early : s.req.decodeState ≠ .complete → s.req.strBody = []

/-- No call that can read on starts right behind a blank line whose head declares a body, and
where a round finds bytes behind the blank line, it finds at least as many as the head's
`Content-Length` asks for, and there is one. -/
def ParseRun.Covered (buf : Bytes) (s : ParseRun) : ParseStep → Prop
  | .call size => s.req.decodeState = .body → s.req.nextPos < size → ∀ length, ¬ s.req.Declares length
  | .round => s.req.decodeState = .crLfCr → byteAt buf s.req.nextPos = LF → s.req.nextPos + 1 < s.size →
      ∃ text, s.req.headers.find? contentLengthName = some text ∧ s.req.nextPos + 1 + atoi text ≤ s.size
  | .leave => True

/-- What a round does that is neither at the blank line nor at the body. -/
structure SHttpRequest.PlainRound (req : SHttpRequest) (loc : ParseLocals) (ch : UInt8) (req' : SHttpRequest)
    (loc' : ParseLocals) : Prop where
  nextPos : req'.nextPos = req.nextPos + 1
  decodeState : req'.decodeState = req.decodeState.after ch
  strBody : req'.strBody = req.strBody
  head : req'.decodeState ≠ .body ∧ req'.decodeState ≠ .complete
  bodyLength : loc'.bodyLength = loc.bodyLength

theorem HttpRequestDecodeState.after_plain {state : HttpRequestDecodeState} (going : state.isFinal = false)
    (inHead : state ≠ .crLfCr) (early : state ≠ .body) (ch : UInt8) :
    state.after ch ≠ .body ∧ state.after ch ≠ .complete := by
  unfold HttpRequestDecodeState.after HeadScan.feed
  cases state with
  | crLfCr => exact absurd rfl inHead
  | body => exact absurd rfl early
  | invalid | invalidMethod | invalidUri | invalidVersion | invalidHeader | complete => cases going
  | _ => grind

theorem SHttpRequest.parseRound_plain {req req' : SHttpRequest} {loc loc' : ParseLocals}
    (done : req.parseRound buf size behind loc = .ok (req', loc')) (going : req.decodeState.isFinal = false)
    (inHead : req.decodeState ≠ .crLfCr) (early : req.decodeState ≠ .body) :
    req.PlainRound loc (byteAt buf req.nextPos) req' loc' := by
  suffices plain : req'.nextPos = req.nextPos + 1 ∧ req'.decodeState = req.decodeState.after (byteAt buf req.nextPos) ∧
      req'.strBody = req.strBody ∧ loc'.bodyLength = loc.bodyLength by
    obtain ⟨nextPos, decodeState, strBody, bodyLength⟩ := plain
    refine ⟨nextPos, decodeState, strBody, ?_, bodyLength⟩
    rw [decodeState]
    exact HttpRequestDecodeState.after_plain going inHead early _
  unfold SHttpRequest.parseRound at done
  have lexed : req.decodeState.after (byteAt buf req.nextPos) =
    (HeadScan.feed { decodeState := req.decodeState } (byteAt buf req.nextPos)).decodeState := rfl
  unfold HeadScan.feed at lexed
  cases state : req.decodeState <;> simp only [state] at done going inHead early lexed
  case method | inUri | protocol | version =>
    (repeat' split at done) <;> first
      | (cases done; exact ⟨rfl, by simp_all, rfl, rfl⟩)
      | (obtain ⟨text, _, done⟩ := bind_eq_ok.mp done
         cases done
         exact ⟨rfl, by simp_all, rfl, rfl⟩)
  case uriParamValue | headerValue =>
    (repeat' split at done) <;> first
      | (cases done; exact ⟨rfl, by simp_all, rfl, rfl⟩)
      | (obtain ⟨key, _, done⟩ := bind_eq_ok.mp done
         obtain ⟨value, _, done⟩ := bind_eq_ok.mp done
         cases done
         exact ⟨rfl, by simp_all, rfl, rfl⟩)
  case crLfCr => exact absurd rfl inHead
  case body => exact absurd rfl early
  case invalid | invalidMethod | invalidUri | invalidVersion | invalidHeader | complete => cases going
  all_goals
    (repeat' split at done) <;> cases done <;> exact ⟨rfl, by simp_all, rfl, rfl⟩

/-- What a round does at the line feed of the blank line. -/
theorem SHttpRequest.parseRound_blankLine {req req' : SHttpRequest} {loc loc' : ParseLocals}
    (state : req.decodeState = .crLfCr) (newline : byteAt buf req.nextPos = LF) (below : req.nextPos < size)
    (done : req.parseRound buf size behind loc = .ok (req', loc')) :
    req'.nextPos = req.nextPos + 1 ∧ req'.headers = req.headers ∧ req'.strBody = req.strBody ∧
      match req.headers.find? contentLengthName with
      | none => req'.decodeState = .body
      | some text => loc'.bodyLength = atoi text ∧ req'.decodeState = if 0 < atoi text then .body else .complete := by
  unfold parseRound at done
  simp only [state, newline, beq_self_eq_true, if_true, if_pos below] at done
  cases found : req.headers.find? contentLengthName with
  | none =>
    rw [found] at done
    cases done
    exact ⟨rfl, rfl, rfl, rfl⟩
  | some text =>
    rw [found] at done
    simp only at done
    split at done
    · rename_i positive
      cases done
      exact ⟨rfl, rfl, rfl, rfl, (if_pos positive).symm⟩
    · rename_i negative
      cases done
      exact ⟨rfl, rfl, rfl, rfl, (if_neg negative).symm⟩

theorem SHttpRequest.parseRound_noBlankLine {req req' : SHttpRequest} {loc loc' : ParseLocals}
    (state : req.decodeState = .crLfCr) (other : byteAt buf req.nextPos ≠ LF)
    (done : req.parseRound buf size behind loc = .ok (req', loc')) :
    req'.nextPos = req.nextPos + 1 ∧ req'.strBody = req.strBody ∧ req'.decodeState = .invalidHeader := by
  have notNewline : ¬ (byteAt buf req.nextPos == LF) = true := by
    rw [beq_iff_eq]
    exact other
  unfold parseRound at done
  simp only [state, if_neg notNewline] at done
  cases done
  exact ⟨rfl, rfl, rfl⟩

theorem SHttpRequest.parseRound_body {req req' : SHttpRequest} {loc loc' : ParseLocals}
    (state : req.decodeState = .body)
    (done : req.parseRound buf size behind loc = .ok (req', loc')) :
    req'.nextPos = req.nextPos + 1 ∧ req'.headers = req.headers ∧ req'.decodeState = .complete ∧
      assignBody (buf ++ behind) req.nextPos loc.bodyLength = .ok req'.strBody := by
  unfold parseRound at done
  simp only [state] at done
  obtain ⟨text, assigned, done⟩ := bind_eq_ok.mp done
  cases done
  exact ⟨rfl, rfl, rfl, assigned⟩

theorem SHttpRequest.parseRound_nextPos {req req' : SHttpRequest} {loc loc' : ParseLocals}
    (done : req.parseRound buf size behind loc = .ok (req', loc')) (going : req.decodeState.isFinal = false)
    (below : req.nextPos < size) : req'.nextPos = req.nextPos + 1 := by
  by_cases body : req.decodeState = .body
  · exact (parseRound_body body done).1
  by_cases blank : req.decodeState = .crLfCr
  · by_cases newline : byteAt buf req.nextPos = LF
    · exact (parseRound_blankLine blank newline below done).1
    · exact (parseRound_noBlankLine blank newline done).1
  · exact (parseRound_plain done going blank body).nextPos

/-- A body that lies in the buffer is taken from there. -/
theorem assignBody_inside {length : Nat} (inside : pos + length ≤ buf.length) :
    assignBody (buf ++ behind) pos length = .ok ((buf.drop pos).take length) := by
  have positive : ¬ (length : Int) < 0 := by omega
  have reach : pos + length ≤ (buf ++ behind).length := inside.trans (by simp)
  rw [assignBody, if_neg positive, Int.toNat_natCast, if_pos reach, List.drop_append_of_le_length (by omega),
    List.take_append_of_le_length (by rw [List.length_drop]; omega)]

namespace ParseRun

variable {buf behind : Bytes} {s s' : ParseRun}

/-- What every run keeps whose steps are covered. The length that a round has found at the
blank line is there for the body only as long as the call lasts. -/
structure Keeps (buf : Bytes) (s : ParseRun) : Prop where
  fits : s.size ≤ buf.length
  within : s.req.nextPos ≤ s.size
  lexed : s.req.decodeState.isFinal = false → lexState (buf.take s.req.nextPos) = s.req.decodeState
  body : s.req.decodeState = .body → EndsHead buf s.req.nextPos
  reading : s.running = true → s.req.decodeState = .body → s.req.nextPos < s.size →
    s.req.nextPos + s.loc.bodyLength ≤ s.size ∧ ∀ length, s.req.Declares length → s.loc.bodyLength = length
  exact : s.req.decodeState = .complete → ∀ length, s.req.Declares length →
    ∃ pos, EndsHead buf pos ∧ pos + length ≤ s.size ∧ s.req.strBody = (buf.drop pos).take length
  early : s.req.decodeState ≠ .complete → s.req.strBody = []

theorem Keeps.right (keeps : s.Keeps buf) : s.BodyRight buf :=
  ⟨fun running body below => (keeps.reading running body below).1, keeps.exact, keeps.early⟩

theorem Keeps.call {size : Nat} (keeps : s.Keeps buf) (covered : s.Covered buf (.call size)) (grows : s.size ≤ size)
    (fits : size ≤ buf.length) : Keeps buf { s with loc := {}, size, running := true } := by
  refine ⟨fits, keeps.within.trans grows, keeps.lexed, keeps.body, ?_, ?_, keeps.early⟩
  · intro _ body below
    refine ⟨?_, fun length declared => absurd declared (covered body below length)⟩
    change (s.req.nextPos : Int) + 0 ≤ size
    have below' : s.req.nextPos < size := below
    omega
  · intro complete length declared
    obtain ⟨pos, ends, inside, stored⟩ := keeps.exact complete length declared
    exact ⟨pos, ends, inside.trans grows, stored⟩

/-- The bytes of the head decide the state after one more round. -/
theorem Keeps.lexed_after (keeps : s.Keeps buf) (going : s.req.decodeState.isFinal = false)
    (below : s.req.nextPos < s.size) : lexState (buf.take (s.req.nextPos + 1)) =
      s.req.decodeState.after (byteAt buf s.req.nextPos) := by
  rw [take_succ_byteAt (below.trans_le keeps.fits), lexState_snoc, keeps.lexed going]

theorem Keeps.plain {req : SHttpRequest} {loc : ParseLocals} (keeps : s.Keeps buf)
    (going : s.req.decodeState.isFinal = false) (below : s.req.nextPos < s.size)
    (round : s.req.PlainRound s.loc (byteAt buf s.req.nextPos) req loc) (early : s.req.strBody = []) :
    Keeps buf { s with req, loc } := by
  refine ⟨keeps.fits, ?_, fun _ => ?_, fun body => absurd body round.head.1, fun _ body => absurd body round.head.1,
    fun complete => absurd complete round.head.2, fun _ => round.strBody.trans early⟩
  · change req.nextPos ≤ s.size
    rw [round.nextPos]
    exact below
  · change lexState (buf.take req.nextPos) = req.decodeState
    rw [round.nextPos, round.decodeState]
    exact keeps.lexed_after going below

/-- The round at the line feed of the blank line. -/
theorem Keeps.blankLine {req : SHttpRequest} {loc : ParseLocals} (keeps : s.Keeps buf)
    (state : s.req.decodeState = .crLfCr) (newline : byteAt buf s.req.nextPos = LF) (below : s.req.nextPos < s.size)
    (covered : s.Covered buf .round) (done : s.req.parseRound buf s.size behind s.loc = .ok (req, loc)) :
    Keeps buf { s with req, loc } := by
  obtain ⟨nextPos, headers, strBody, outcome⟩ := SHttpRequest.parseRound_blankLine state newline below done
  have going : s.req.decodeState.isFinal = false := by rw [state]; rfl
  have lexed := keeps.lexed_after going below
  have early := strBody.trans (keeps.early (by rw [state]; nofun))
  rw [state, newline] at lexed
  have ends : EndsHead buf req.nextPos := by
    refine ⟨buf.take s.req.nextPos, ?_, (keeps.lexed going).trans state⟩
    rw [nextPos, take_succ_byteAt (below.trans_le keeps.fits), newline]
  have bodyOrComplete : req.decodeState = .body ∨ req.decodeState = .complete := by
    split at outcome
    · exact .inl outcome
    · rw [outcome.2]
      split
      · exact .inl rfl
      · exact .inr rfl
  refine ⟨keeps.fits, ?_, ?_, fun _ => ends, ?_, ?_, fun _ => early⟩
  · change req.nextPos ≤ s.size
    rw [nextPos]
    exact below
  · intro going'
    change lexState (buf.take req.nextPos) = req.decodeState
    rcases bodyOrComplete with body | complete
    · rw [body, nextPos, lexed]
      rfl
    · change req.decodeState.isFinal = false at going'
      rw [complete] at going'
      cases going'
  · intro _ _ more
    change req.nextPos < s.size at more
    rw [nextPos] at more
    obtain ⟨text, found, room⟩ := covered state newline more
    rw [found] at outcome
    change (req.nextPos : Int) + loc.bodyLength ≤ s.size ∧ ∀ length, req.Declares length → loc.bodyLength = length
    rw [outcome.1, nextPos]
    refine ⟨by omega, ?_⟩
    rintro length ⟨text', found', decimal, _, fits⟩
    rw [headers] at found'
    cases found.symm.trans found'
    exact atoi_decimal decimal fits
  · intro complete length declared
    change req.decodeState = .complete at complete
    obtain ⟨text, found, decimal, positive, fits⟩ := declared
    change req.headers.find? contentLengthName = some text at found
    rw [headers] at found
    rw [found] at outcome
    have value := atoi_decimal decimal fits
    have isBody := outcome.2
    rw [value, if_pos (by omega), complete] at isBody
    cases isBody

theorem Keeps.noBlankLine {req : SHttpRequest} {loc : ParseLocals} (keeps : s.Keeps buf)
    (state : s.req.decodeState = .crLfCr) (other : byteAt buf s.req.nextPos ≠ LF) (below : s.req.nextPos < s.size)
    (done : s.req.parseRound buf s.size behind s.loc = .ok (req, loc)) (early : s.req.strBody = []) :
    Keeps buf { s with req, loc } := by
  obtain ⟨nextPos, strBody, invalid⟩ := SHttpRequest.parseRound_noBlankLine state other done
  refine ⟨keeps.fits, ?_, fun going => ?_, fun body => ?_, fun _ body => ?_, fun complete => ?_,
    fun _ => strBody.trans early⟩
  · change req.nextPos ≤ s.size
    rw [nextPos]
    exact below
  · change req.decodeState.isFinal = false at going
    rw [invalid] at going
    cases going
  · cases invalid.symm.trans body
  · cases invalid.symm.trans body
  · cases invalid.symm.trans complete

/-- The round that stores the body. -/
theorem Keeps.store {req : SHttpRequest} {loc : ParseLocals} (keeps : s.Keeps buf) (running : s.running = true)
    (body : s.req.decodeState = .body) (below : s.req.nextPos < s.size)
    (done : s.req.parseRound buf s.size behind s.loc = .ok (req, loc)) : Keeps buf { s with req, loc } := by
  obtain ⟨nextPos, headers, complete, assigned⟩ := SHttpRequest.parseRound_body body done
  obtain ⟨inside, same⟩ := keeps.reading running body below
  refine ⟨keeps.fits, ?_, ?_, ?_, ?_, ?_, fun incomplete => absurd complete incomplete⟩
  · change req.nextPos ≤ s.size
    rw [nextPos]
    exact below
  · intro going
    change req.decodeState.isFinal = false at going
    rw [complete] at going
    cases going
  · intro isBody
    cases complete.symm.trans isBody
  · intro _ isBody
    cases complete.symm.trans isBody
  · rintro _ length ⟨text, found, decimal, positive, fits⟩
    change req.headers.find? contentLengthName = some text at found
    rw [headers] at found
    have bodyLength := same length ⟨text, found, decimal, positive, fits⟩
    rw [bodyLength] at inside assigned
    have bounded := keeps.fits
    have room : s.req.nextPos + length ≤ s.size := by omega
    refine ⟨s.req.nextPos, keeps.body body, room, ?_⟩
    rw [assignBody_inside (room.trans bounded)] at assigned
    exact (Except.ok.inj assigned).symm

theorem Keeps.act (keeps : s.Keeps buf) (covered : s.Covered buf step)
    (taken : s.act buf behind step = some (.ok s')) :
    s'.Keeps buf := by
  cases step with
  | call size =>
    simp only [ParseRun.act] at taken
    split at taken
    · rename_i may
      cases taken
      exact keeps.call covered may.2.1 may.2.2
    · cases taken
  | leave =>
    simp only [ParseRun.act] at taken
    split at taken
    · cases taken
      exact ⟨keeps.fits, keeps.within, keeps.lexed, keeps.body, nofun, keeps.exact, keeps.early⟩
    · cases taken
  | round =>
    simp only [ParseRun.act] at taken
    split at taken
    · rename_i may
      obtain ⟨running, loops⟩ := may
      obtain ⟨going, below⟩ : s.req.decodeState.isFinal = false ∧ s.req.nextPos < s.size := by
        simpa [ParseRun.loops] using loops
      obtain ⟨⟨req, loc⟩, done, same⟩ := bind_eq_ok.mp (Option.some.inj taken)
      cases same
      by_cases body : s.req.decodeState = .body
      · exact keeps.store running body below done
      have early : s.req.strBody = [] := by
        apply keeps.early
        intro complete
        rw [complete] at going
        cases going
      by_cases blank : s.req.decodeState = .crLfCr
      · by_cases newline : byteAt buf s.req.nextPos = LF
        · exact keeps.blankLine blank newline below covered done
        · exact keeps.noBlankLine blank newline below done early
      · exact keeps.plain going below (SHttpRequest.parseRound_plain done going blank body) early
    · cases taken

theorem start_keeps (buf : Bytes) : start.Keeps buf :=
  ⟨Nat.zero_le _, le_rfl, fun _ => rfl, nofun, nofun, nofun, fun _ => rfl⟩

/-- A call of `ParseInternal` is such a run of rounds. -/
theorem run_parseLoop {size rounds : Nat} {req req' : SHttpRequest} {loc loc' : ParseLocals}
    (enough : size ≤ req.nextPos + rounds)
    (done : SHttpRequest.parseLoop buf size behind rounds req loc = .ok (req', loc')) :
    ∃ steps, (parseSystem buf behind).Run ⟨req, loc, size, true⟩ steps ⟨req', loc', size, false⟩ := by
  have leaves (req : SHttpRequest) (loc : ParseLocals) (final : loops ⟨req, loc, size, true⟩ = false) :
      (parseSystem buf behind).Run ⟨req, loc, size, true⟩ [.leave] ⟨req, loc, size, false⟩ := by
    refine ⟨_, ?_, rfl⟩
    simp [parseSystem, act, final]
  induction rounds generalizing req loc with
  | zero =>
    cases done
    refine ⟨_, leaves _ _ ?_⟩
    rw [loops, Bool.and_eq_false_iff]
    exact .inr (decide_eq_false (Nat.not_lt.mpr enough))
  | succ rounds ih =>
    unfold SHttpRequest.parseLoop at done
    split at done
    · rename_i loops
      obtain ⟨⟨req₁, loc₁⟩, round, done⟩ := bind_eq_ok.mp done
      have going : req.decodeState.isFinal = false := by
        cases final : req.decodeState.isFinal
        · rfl
        · simp [final] at loops
      have below : req.nextPos < size := by
        cases final : req.decodeState.isFinal <;> simp [final] at loops
        exact loops
      have moved := SHttpRequest.parseRound_nextPos round going below
      obtain ⟨steps, run⟩ := ih (by omega) done
      refine ⟨.round :: steps, _, ?_, run⟩
      simp [parseSystem, act, ParseRun.loops, going, below, round, bind, Except.bind]
    · rename_i final
      cases done
      exact ⟨_, leaves _ _ (Bool.eq_false_iff.mpr final)⟩

theorem run_parseInternal {req req' : SHttpRequest} {loc : ParseLocals} {size before : Nat} (grows : before ≤ size)
    (fits : size ≤ buf.length) (done : req.parseInternal buf size behind = .ok req') :
    ∃ steps loc', (parseSystem buf behind).Run ⟨req, loc, before, false⟩ (.call size :: steps)
      ⟨req', loc', size, false⟩ := by
  obtain ⟨⟨req₁, loc₁⟩, looped, same⟩ := bind_eq_ok.mp done
  cases same
  obtain ⟨steps, run⟩ := run_parseLoop (by omega) looped
  refine ⟨steps, loc₁, _, ?_, run⟩
  simp [parseSystem, act, grows, fits]

end ParseRun

/-- In every run whose steps are covered, the body that is stored is the declared one and lies
below `size`. -/
theorem bodyRight_of_reachable {s : ParseRun}
    (reachable : (parseSystem buf behind).Reachable (ParseRun.Covered buf) s) :
    s.BodyRight buf := by
  refine (reachable.invariant (ParseRun.Keeps buf) ?_ ?_).right
  · rintro s rfl
    exact ParseRun.start_keeps buf
  · intro s step s' keeps covered taken
    exact keeps.act covered taken

/-- The request of a client that declares a body of 5 bytes. -/
def fiveBytes (body : String) : Bytes := ascii "POST / HTTP/1.1\r\nContent-Length: 5\r\n\r\n" ++ ascii body

/-- A check that covers steps. -/
def ParseRun.covers (s : ParseRun) : ParseStep → Bool
  | .call _ => s.req.decodeState != .body
  | .round => s.req.decodeState != .crLfCr ||
      (s.req.headers.find? contentLengthName).any fun text => s.req.nextPos + 1 + atoi text ≤ s.size
  | .leave => true

theorem ParseRun.covered_of_covers {s : ParseRun} (buf : Bytes) (covers : s.covers step = true) :
    s.Covered buf step := by
  cases step with
  | call size =>
    intro body
    rw [ParseRun.covers, body] at covers
    cases covers
  | round =>
    intro blank _ _
    rw [ParseRun.covers, blank] at covers
    obtain ⟨text, found, room⟩ := (Option.any_eq_true ..).mp covers
    exact ⟨text, found, of_decide_eq_true room⟩
  | leave => trivial

theorem fiveBytes_right : ∃ s : ParseRun, s.req.decodeState = .complete ∧ s.req.strBody = ascii "hello" ∧
    s.BodyRight (fiveBytes "hello") := by
  have checked : ((System.Reachable.follow (ParseRun.act (fiveBytes "hello") []) ParseRun.covers .start
      (.call 43 :: List.replicate 39 .round)).any fun s =>
        s.req.decodeState == .complete && s.req.strBody == ascii "hello") = true := by decide +kernel
  obtain ⟨s, followed, state⟩ := (Option.any_eq_true ..).mp checked
  rw [Bool.and_eq_true, beq_iff_eq, beq_iff_eq] at state
  exact ⟨s, state.1, state.2, bodyRight_of_reachable (System.Reachable.followed (.init rfl)
    (fun s _ _ covers => s.covered_of_covers _ covers) (fun _ _ _ => id) followed)⟩

/-- With two of the five bytes there, all five are taken. -/
theorem fiveBytes_not_right :
    ∃ s, (parseSystem (fiveBytes "he") []).Run .start (.call 40 :: List.replicate 38 .round) s ∧
    s.req.decodeState = .body ∧ ¬ s.BodyRight (fiveBytes "he") := by
  have checked : (((.call 40 :: List.replicate 38 .round : List ParseStep).foldlM
      (fun s step => reached (ParseRun.act (fiveBytes "he") [] s step)) ParseRun.start).any fun s =>
        s.running && s.req.decodeState == .body && s.req.nextPos == 38 && s.size == 40 && s.loc.bodyLength == 5) =
          true := by
    decide +kernel
  obtain ⟨s, done, state⟩ := (Option.any_eq_true ..).mp checked
  simp only [Bool.and_eq_true, beq_iff_eq] at state
  obtain ⟨⟨⟨⟨running, body⟩, nextPos⟩, size⟩, bodyLength⟩ := state
  refine ⟨s, .of_foldlM (fun _ _ _ taken => of_reached taken) done, body, ?_⟩
  intro right
  have inside := right.inside running body (by omega)
  omega

end WSlyh.Http
