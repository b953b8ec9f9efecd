import WSlyh.Http.HeadScan
import Mathlib.Tactic.SplitIfs

/-! The loop of `ParseInternal` against the pointer-free scan: as long as the pointers of
the open token were set in the same call, one round does what one `feed` does. -/

namespace WSlyh.Http

open Libc

/-- A token whose first byte has been read and whose end is yet to be found. -/
def StringBuffer.Open (buf : Bytes) (pos : Nat) (text : Bytes) (token : StringBuffer) : Prop :=
  ∃ first < pos, token.pBegin = some first ∧ (buf.take pos).drop first = text

theorem take_succ_byteAt {buf : Bytes} (inside : pos < buf.length) :
    buf.take (pos + 1) = buf.take pos ++ [byteAt buf pos] := by
  rw [List.take_add_one, byteAt]
  simp [inside]

theorem StringBuffer.Open.start {buf : Bytes} (inside : pos < buf.length) (token : StringBuffer) :
    StringBuffer.Open buf (pos + 1) [byteAt buf pos] { token with pBegin := some pos } := by
  refine ⟨pos, Nat.lt_succ_self pos, rfl, ?_⟩
  rw [take_succ_byteAt inside, List.drop_left']
  rw [List.length_take, Nat.min_eq_left inside.le]

theorem StringBuffer.Open.more {buf : Bytes} {token : StringBuffer} (reading : token.Open buf pos text)
    (inside : pos < buf.length) : token.Open buf (pos + 1) (text ++ [byteAt buf pos]) := by
  obtain ⟨first, before, begins, rfl⟩ := reading
  refine ⟨first, by omega, begins, ?_⟩
  have covered : first ≤ (buf.take pos).length := by
    rw [List.length_take]
    omega
  rw [take_succ_byteAt inside, List.drop_append_of_le_length covered]

theorem StringBuffer.Open.toString {buf : Bytes} {token : StringBuffer} (reading : token.Open buf pos text) :
    StringBuffer.toString buf { token with pEnd := some pos } = .ok text := by
  obtain ⟨first, _, begins, rfl⟩ := reading
  simp [StringBuffer.toString, begins]

/-- The scan of one more byte of the buffer. -/
theorem HeadScan.of_take_succ {buf : Bytes} (inside : n < buf.length) :
    HeadScan.of (buf.take (n + 1)) = (HeadScan.of (buf.take n)).feed (byteAt buf n) := by
  rw [take_succ_byteAt inside, of_snoc]

/-- The pointers that the open token needs are there, and they delimit its text. A body about to be copied
has its length. -/
def ParseLocals.Intact (buf : Bytes) (size : Nat) (scan : HeadScan) (loc : ParseLocals) : Prop :=
  match scan.decodeState with
  | .method => loc.method.Open buf scan.nextPos scan.token
  | .inUri => loc.url.Open buf scan.nextPos scan.token
  | .uriParamKey => loc.requestParamKey.Open buf scan.nextPos scan.token
  | .beforeUriParamValue => loc.requestParamKey.toString buf = .ok scan.key
  | .uriParamValue => loc.requestParamKey.toString buf = .ok scan.key ∧
      loc.requestParamValue.Open buf scan.nextPos scan.token
  | .protocol => loc.protocol.Open buf scan.nextPos scan.token
  | .version | .versionSplit => loc.version.Open buf scan.nextPos scan.token
  | .headerKey => loc.headerKey.Open buf scan.nextPos scan.token
  | .headerBeforeColon | .headerAfterColon => loc.headerKey.toString buf = .ok scan.key
  | .headerValue => loc.headerKey.toString buf = .ok scan.key ∧
      loc.headerValue.Open buf scan.nextPos scan.token
  | .body => (scan.nextPos : Int) + loc.bodyLength = scan.bodyEnd size
  | _ => True

theorem ParseLocals.Intact.ends {loc : ParseLocals} {scan : HeadScan} (intact : loc.Intact buf size scan)
    (body : scan.decodeState = .body) : (scan.nextPos : Int) + loc.bodyLength = scan.bodyEnd size := by
  unfold ParseLocals.Intact at intact
  rw [body] at intact
  exact intact

theorem SHttpRequest.parseRound_intact {req : SHttpRequest} {scan : HeadScan} (size : Nat) (behind : Bytes)
    (same : req.head = scan.toParsedHead) (intact : loc.Intact buf size scan)
    (going : scan.decodeState.isFinal = false) (early : scan.decodeState ≠ .body) (inside : scan.nextPos < buf.length)
    (below : scan.nextPos < size) :
    ∃ req' loc', req.parseRound buf size behind loc = .ok (req', loc') ∧
      req'.head = (scan.feed (byteAt buf scan.nextPos)).toParsedHead ∧
      loc'.Intact buf size (scan.feed (byteAt buf scan.nextPos)) := by
  obtain ⟨parsed, key, token⟩ := scan
  obtain rfl : req.head = parsed := same
  have started := fun token => StringBuffer.Open.start inside token
  unfold SHttpRequest.parseRound HeadScan.feed
  cases state : req.decodeState <;>
    simp only [SHttpRequest.head, ParseLocals.Intact, state] at intact going started early ⊢
  case start | beforeUri | beforeUriParamKey | beforeUriParamValue | beforeProtocol | beforeVersion
      | headerBeforeColon | headerAfterColon | whenCr | crLf =>
    split_ifs <;> exact ⟨_, _, rfl, rfl,
      by first | trivial | exact started _ | exact intact | exact ⟨intact, started _⟩⟩
  case opened => exact ⟨_, _, rfl, rfl, trivial⟩
  case uriParamKey | headerKey | versionSplit =>
    split_ifs <;> exact ⟨_, _, rfl, rfl, by first | trivial | exact intact.more inside | exact intact.toString⟩
  case method | inUri | protocol | version =>
    simp only [intact.toString]
    split_ifs <;> exact ⟨_, _, rfl, rfl, by first | trivial | exact intact.more inside⟩
  case uriParamValue | headerValue =>
    simp only [intact.1, intact.2.toString]
    split_ifs <;> exact ⟨_, _, rfl, rfl, by first | trivial | exact ⟨intact.1, intact.2.more inside⟩⟩
  case crLfCr =>
    have room : req.nextPos < size := below
    cases newline : byteAt buf req.nextPos == LF with
    | false => exact ⟨_, _, rfl, rfl, trivial⟩
    | true =>
      cases declared : req.headers.find? contentLengthName with
      | none =>
        simp only [if_true, room]
        refine ⟨_, _, rfl, rfl, ?_⟩
        simp only [ParsedHead.bodyEnd, declared]
        omega
      | some text =>
        simp only [if_true]
        split_ifs with positive
        · refine ⟨_, _, rfl, rfl, ?_⟩
          simp only [ParsedHead.bodyEnd, declared]
          omega
        · exact ⟨_, _, rfl, rfl, trivial⟩
  case body => exact absurd rfl early
  case invalid | invalidMethod | invalidUri | invalidVersion | invalidHeader | complete => cases going

/-- The round that copies the body. -/
theorem SHttpRequest.parseRound_copy {req : SHttpRequest} {scan : HeadScan} (size : Nat) (loc : ParseLocals)
    (same : req.head = scan.toParsedHead) (body : scan.decodeState = .body) (ch : UInt8)
    (assigned : assignBody (buf ++ behind) scan.nextPos loc.bodyLength = .ok text) :
    ∃ req', req.parseRound buf size behind loc = .ok (req', loc) ∧ req'.head = (scan.feed ch).toParsedHead ∧
      (scan.feed ch).decodeState = .complete := by
  obtain ⟨parsed, key, token⟩ := scan
  obtain rfl : req.head = parsed := same
  have state : req.decodeState = .body := body
  change assignBody (buf ++ behind) req.nextPos loc.bodyLength = .ok text at assigned
  unfold SHttpRequest.parseRound HeadScan.feed
  simp only [SHttpRequest.head, state, assigned]
  exact ⟨_, rfl, rfl, trivial⟩

theorem SHttpRequest.parseRound_segfault {req : SHttpRequest} (size : Nat) (loc : ParseLocals)
    (body : req.decodeState = .body)
    (outside : assignBody (buf ++ behind) req.nextPos loc.bodyLength = .error .segfault) :
    req.parseRound buf size behind loc = .error .segfault := by
  unfold SHttpRequest.parseRound
  simp only [body, outside]
  rfl

/-- The copy ends at the place the head tells. -/
theorem assignBody_bodyEnd (memory : Bytes) {scan : HeadScan}
    (ends : (scan.nextPos : Int) + bodyLength = scan.bodyEnd size)
    (below : scan.nextPos ≤ size) :
    assignBody memory scan.nextPos bodyLength =
      if scan.bodyEnd size ≤ memory.length then .ok ((memory.drop scan.nextPos).take bodyLength.toNat)
      else .error .segfault := by
  have positive : ¬ bodyLength < 0 := by
    unfold ParsedHead.bodyEnd at ends
    split at ends <;> omega
  have reach : scan.nextPos + bodyLength.toNat = scan.bodyEnd size := by omega
  rw [assignBody, if_neg positive, reach]

theorem SHttpRequest.parseLoop_succ {req : SHttpRequest} (rounds : Nat) (buf behind : Bytes) (loc : ParseLocals)
    (going : req.decodeState.isFinal = false) (below : req.nextPos < size) :
    parseLoop buf size behind (rounds + 1) req loc =
      (do let (req, loc) ← req.parseRound buf size behind loc; parseLoop buf size behind rounds req loc) := by
  simp [parseLoop, going, below]

theorem SHttpRequest.parseLoop_final {req : SHttpRequest} (buf : Bytes) (size : Nat) (behind : Bytes) (rounds : Nat)
    (loc : ParseLocals)
    (final : req.decodeState.isFinal = true) : parseLoop buf size behind rounds req loc = .ok (req, loc) := by
  cases rounds <;> simp [parseLoop, final]

/-- A request that has been read up to `n`, between the rounds of a call over `size` bytes. -/
structure SHttpRequest.ReadTo (req : SHttpRequest) (buf : Bytes) (size n : Nat) : Prop where
  head : req.head = (HeadScan.of (buf.take n)).toParsedHead
  grows : n ≤ size
  fits : size ≤ buf.length

namespace SHttpRequest.ReadTo

variable {req : SHttpRequest} {buf : Bytes} {size n : Nat}

theorem decodeState (read : req.ReadTo buf size n) : req.decodeState = (HeadScan.of (buf.take n)).decodeState :=
  congrArg ParsedHead.decodeState read.head

theorem scanPos (read : req.ReadTo buf size n) (going : (HeadScan.of (buf.take n)).decodeState.isFinal = false) :
    (HeadScan.of (buf.take n)).nextPos = n :=
  HeadScan.of_take_nextPos going (read.grows.trans read.fits)

theorem nextPos (read : req.ReadTo buf size n) (going : (HeadScan.of (buf.take n)).decodeState.isFinal = false) :
    req.nextPos = n :=
  (congrArg ParsedHead.nextPos read.head).trans (read.scanPos going)

/-- A round that does not fail reads one byte on, and the rest of the loop follows. -/
theorem step (read : req.ReadTo buf size n) (going : (HeadScan.of (buf.take n)).decodeState.isFinal = false)
    (below : n < size) (round : req.parseRound buf size behind loc = .ok (req', loc'))
    (head : req'.head = ((HeadScan.of (buf.take n)).feed (byteAt buf n)).toParsedHead) (rounds : Nat) :
    req'.ReadTo buf size (n + 1) ∧
      parseLoop buf size behind (rounds + 1) req loc = parseLoop buf size behind rounds req' loc' := by
  have inside : n < buf.length := below.trans_le read.fits
  refine ⟨⟨?_, below, read.fits⟩, ?_⟩
  · rw [HeadScan.of_take_succ inside]
    exact head
  · rw [parseLoop_succ rounds buf behind loc (by rw [read.decodeState]; exact going)
      (by rw [read.nextPos going]; exact below), round]
    rfl

/-- One round on the way to the body, or past it. -/
theorem advance (read : req.ReadTo buf size n) (intact : loc.Intact buf size (HeadScan.of (buf.take n)))
    (going : (HeadScan.of (buf.take n)).decodeState.isFinal = false)
    (early : (HeadScan.of (buf.take n)).decodeState ≠ .body) (below : n < size) (behind : Bytes) (rounds : Nat) :
    ∃ req' loc', req'.ReadTo buf size (n + 1) ∧ loc'.Intact buf size (HeadScan.of (buf.take (n + 1))) ∧
      parseLoop buf size behind (rounds + 1) req loc = parseLoop buf size behind rounds req' loc' := by
  have position := read.scanPos going
  have inside : n < buf.length := below.trans_le read.fits
  obtain ⟨req', loc', round, head, intact'⟩ := parseRound_intact size behind read.head intact going early
    (by rw [position]; exact inside) (by rw [position]; exact below)
  rw [position] at head intact'
  obtain ⟨read', loop⟩ := read.step going below round head rounds
  rw [← HeadScan.of_take_succ inside] at intact'
  exact ⟨req', loc', read', intact', loop⟩

/-- The copy of the body ends the loop. -/
theorem copy (read : req.ReadTo buf size n) (body : (HeadScan.of (buf.take n)).decodeState = .body) (below : n < size)
    (assigned : assignBody (buf ++ behind) n loc.bodyLength = .ok text) (rounds : Nat) :
    ∃ req', parseLoop buf size behind (rounds + 1) req loc = .ok (req', loc) ∧
      req'.head = (HeadScan.of (buf.take size)).toParsedHead := by
  have going : (HeadScan.of (buf.take n)).decodeState.isFinal = false := by rw [body]; rfl
  rw [← read.scanPos going] at assigned
  obtain ⟨req', round, head, complete⟩ := parseRound_copy size loc read.head body (byteAt buf n) assigned
  obtain ⟨read', loop⟩ := read.step going below round head rounds
  rw [← HeadScan.of_take_succ (below.trans_le read.fits)] at complete
  have final : (HeadScan.of (buf.take (n + 1))).decodeState.isFinal = true := by rw [complete]; rfl
  refine ⟨req', ?_, ?_⟩
  · rw [loop, parseLoop_final buf size behind rounds loc (by rw [read'.decodeState]; exact final)]
  · rw [read'.head, HeadScan.of_take_final final below]

end SHttpRequest.ReadTo

theorem drop_take_byteAt {buf : Bytes} (below : pos < size) (fits : size ≤ buf.length) :
    (buf.take size).drop pos = byteAt buf pos :: (buf.take size).drop (pos + 1) := by
  have inside : pos < (buf.take size).length := by
    rw [List.length_take]
    omega
  rw [List.drop_eq_getElem_cons inside, List.getElem_take]
  simp [byteAt, show pos < buf.length by omega]

theorem SHttpRequest.parseLoop_intact {rounds : Nat} {req : SHttpRequest} (read : req.ReadTo buf size n)
    (intact : loc.Intact buf size (HeadScan.of (buf.take n))) (bodyInside : BodyInside buf size behind)
    (aligned : (HeadScan.of (buf.take n)).decodeState.isFinal = true ∨ n + rounds = size) :
    ∃ req' loc', parseLoop buf size behind rounds req loc = .ok (req', loc') ∧
      req'.head = (HeadScan.of (buf.take size)).toParsedHead := by
  induction rounds generalizing req n loc with
  | zero =>
    refine ⟨req, loc, rfl, ?_⟩
    rcases aligned with final | reach
    · rw [HeadScan.of_take_final final read.grows, read.head]
    · rw [← reach, read.head]
      rfl
  | succ rounds ih =>
    cases final : (HeadScan.of (buf.take n)).decodeState.isFinal with
    | true =>
      refine ⟨req, loc, parseLoop_final buf size behind _ loc (by rw [read.decodeState]; exact final), ?_⟩
      rw [HeadScan.of_take_final final read.grows, read.head]
    | false =>
      have reach : n + (rounds + 1) = size := aligned.resolve_left (by simp [final])
      have below : n < size := by omega
      by_cases body : (HeadScan.of (buf.take n)).decodeState = .body
      · have position := read.scanPos final
        have assigned := assignBody_bodyEnd (buf ++ behind) (intact.ends body) (by omega)
        rw [if_pos (bodyInside n below body), position] at assigned
        obtain ⟨req', loop, head⟩ := read.copy body below assigned rounds
        exact ⟨req', loc, loop, head⟩
      · obtain ⟨req₁, loc₁, read₁, intact₁, loop⟩ := read.advance intact final body below behind rounds
        rw [loop]
        exact ih read₁ intact₁ (.inr (by omega))

/-- A loop that has the body before it, and in it bytes outside of the memory. -/
theorem SHttpRequest.parseLoop_segfault {rounds : Nat} {req : SHttpRequest} (read : req.ReadTo buf size n)
    (intact : loc.Intact buf size (HeadScan.of (buf.take n))) (reach : n + rounds = size) (before : n ≤ pos)
    (below : pos < size) (body : (HeadScan.of (buf.take pos)).decodeState = .body)
    (outside : (buf ++ behind).length < (HeadScan.of (buf.take pos)).bodyEnd size) :
    parseLoop buf size behind rounds req loc = .error .segfault := by
  induction rounds generalizing req n loc with
  | zero => omega
  | succ rounds ih =>
    have going : (HeadScan.of (buf.take n)).decodeState.isFinal = false := by
      cases final : (HeadScan.of (buf.take n)).decodeState.isFinal with
      | false => rfl
      | true =>
        rw [← HeadScan.of_take_final final before, body] at final
        cases final
    rcases before.eq_or_lt with rfl | later
    · have assigned := assignBody_bodyEnd (buf ++ behind) (intact.ends body) (by rw [read.scanPos going]; omega)
      rw [if_neg (Nat.not_le.mpr outside), read.scanPos going] at assigned
      rw [parseLoop_succ rounds buf behind loc (by rw [read.decodeState]; exact going)
        (by rw [read.nextPos going]; exact below),
        parseRound_segfault size loc (read.decodeState.trans body) (by rw [read.nextPos going]; exact assigned)]
      rfl
    · have early : (HeadScan.of (buf.take n)).decodeState ≠ .body := by
        intro now
        have complete : (HeadScan.of (buf.take (n + 1))).decodeState = .complete := by
          rw [HeadScan.of_take_succ (later.trans (below.trans_le read.fits)), HeadScan.feed, now]
        rw [HeadScan.of_take_final (by rw [complete]; rfl) later, complete] at body
        cases body
      obtain ⟨req₁, loc₁, read₁, intact₁, loop⟩ := read.advance intact going early (later.trans below) behind rounds
      rw [loop]
      exact ih read₁ intact₁ (by omega) later

theorem SHttpRequest.parseInternal_at {req : SHttpRequest} (buf : Bytes) (size : Nat) (behind : Bytes)
    (position : req.nextPos = n) :
    req.parseInternal buf size behind = (do let (req, _) ← req.parseLoop buf size behind (size - n) {}; .ok req) := by
  rw [parseInternal, position]

/-- A call that starts between two tokens, on a request that the scan describes, ends on
one that the scan describes. A body it starts at it takes for an empty one. -/
theorem SHttpRequest.parseInternal_intact {req : SHttpRequest} {buf : Bytes} {n size : Nat}
    (same : req.head = (HeadScan.of (buf.take n)).toParsedHead)
    (between : (HeadScan.of (buf.take n)).decodeState.inToken = false)
    (grows : n ≤ size) (fits : size ≤ buf.length) (bodyInside : BodyInside buf size behind) :
    ∃ req', req.parseInternal buf size behind = .ok req' ∧
      req'.head = (HeadScan.of (buf.take size)).toParsedHead := by
  have read : req.ReadTo buf size n := ⟨same, grows, fits⟩
  suffices looped : ∃ req' loc', parseLoop buf size behind (size - req.nextPos) req {} = .ok (req', loc') ∧
      req'.head = (HeadScan.of (buf.take size)).toParsedHead by
    obtain ⟨req', loc', done, head⟩ := looped
    exact ⟨req', by rw [parseInternal, done]; rfl, head⟩
  cases final : (HeadScan.of (buf.take n)).decodeState.isFinal with
  | true =>
    refine ⟨req, {}, parseLoop_final buf size behind _ {} (by rw [read.decodeState]; exact final), ?_⟩
    rw [HeadScan.of_take_final final grows, same]
  | false =>
    rw [read.nextPos final]
    by_cases body : (HeadScan.of (buf.take n)).decodeState = .body
    · rcases grows.eq_or_lt with rfl | below
      · rw [Nat.sub_self]
        exact ⟨req, {}, rfl, same⟩
      · have nothing : assignBody (buf ++ behind) n ({} : ParseLocals).bodyLength = .ok [] := by
          simp [assignBody, show n ≤ buf.length + behind.length by omega]
        obtain ⟨req', loop, head⟩ := read.copy body below nothing (size - n - 1)
        rw [Nat.sub_add_cancel (Nat.sub_pos_of_lt below)] at loop
        exact ⟨req', {}, loop, head⟩
    · have intact : ({} : ParseLocals).Intact buf size (HeadScan.of (buf.take n)) := by
        unfold ParseLocals.Intact
        revert between body
        cases (HeadScan.of (buf.take n)).decodeState <;> simp [HttpRequestDecodeState.inToken]
      exact parseLoop_intact read intact bodyInside (.inr (Nat.add_sub_of_le grows))

/-- From a fresh parser, one call reads what the scan reads, and throws nothing, unless it copies the body
from outside of the memory. -/
theorem SHttpRequest.parseInternal_fresh (buf behind : Bytes) (fits : size ≤ buf.length) :
    if BodyInside buf size behind then
      ∃ req', ({} : SHttpRequest).parseInternal buf size behind = .ok req' ∧
        req'.head = (HeadScan.of (buf.take size)).toParsedHead
    else ({} : SHttpRequest).parseInternal buf size behind = .error .segfault := by
  split
  · rename_i bodyInside
    refine parseInternal_intact (n := 0) ?_ ?_ (Nat.zero_le size) fits bodyInside <;> rfl
  · rename_i outside
    simp only [BodyInside, not_forall, Nat.not_le] at outside
    obtain ⟨pos, below, body, outside⟩ := outside
    have read : ({} : SHttpRequest).ReadTo buf size 0 := ⟨rfl, Nat.zero_le size, fits⟩
    have start : ({} : SHttpRequest).nextPos = 0 := rfl
    rw [parseInternal_at buf size behind start, Nat.sub_zero,
      parseLoop_segfault read trivial (Nat.zero_add _) (Nat.zero_le pos) below body outside]
    rfl

theorem SHttpRequest.parseInternal_whole (inside : BodyInside bytes bytes.length behind) :
    ∃ req, ({} : SHttpRequest).parseInternal bytes bytes.length behind = .ok req ∧
      req.head = (HeadScan.of bytes).toParsedHead := by
  have fresh := parseInternal_fresh bytes behind le_rfl
  rwa [if_pos inside, List.take_length] at fresh

/-- What a call from a fresh parser returns is what the scan reads. -/
theorem SHttpRequest.head_of_fresh (parsed : ({} : SHttpRequest).parseInternal buf size behind = .ok req)
    (fits : size ≤ buf.length) : req.head = (HeadScan.of (buf.take size)).toParsedHead := by
  have fresh := parseInternal_fresh buf behind fits
  split at fresh
  · obtain ⟨req', done, head⟩ := fresh
    cases parsed.symm.trans done
    exact head
  · cases parsed.symm.trans fresh

end WSlyh.Http
