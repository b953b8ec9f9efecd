import WSlyh.Http.ParseRefinement
import WSlyh.Lib.Transition

/-! Splitting the input over several calls of `ParseInternal`. The pointers of an open token
do not survive a call, so a split is harmless exactly when no token that is completed
later is open at the cut. -/

namespace WSlyh.Http

open Libc

/-- The pointer to the first byte of the token that is open in a state. -/
def ParseLocals.anchor (loc : ParseLocals) : HttpRequestDecodeState → Option Nat
  | .method => loc.method.pBegin
  | .inUri => loc.url.pBegin
  | .uriParamKey | .beforeUriParamValue | .uriParamValue => loc.requestParamKey.pBegin
  | .protocol => loc.protocol.pBegin
  | .version | .versionSplit => loc.version.pBegin
  | .headerKey | .headerBeforeColon | .headerAfterColon | .headerValue => loc.headerKey.pBegin
  | _ => none

/-- A call went on with a token whose first byte an earlier call had read. -/
def ParseLocals.Lost (scan : HeadScan) (loc : ParseLocals) : Prop :=
  scan.decodeState.inToken = true ∧ loc.anchor scan.decodeState = none

/-- A parameter or a header with an empty name, which no single call ever stores. -/
def ParsedHead.Diverged (head : ParsedHead) : Prop :=
  (head.requestParams.find? []).isSome ∨ (head.headers.find? []).isSome

theorem StringBuffer.toString_null (buf : Bytes) {token : StringBuffer} (null : token.pBegin = none) :
    token.toString buf = .ok [] ∨ token.toString buf = .error .nullConstruction := by
  unfold StringBuffer.toString
  rw [null]
  cases token.pEnd <;> simp

theorem SHttpRequest.parseRound_diverged {req : SHttpRequest} (diverged : req.head.Diverged)
    (done : req.parseRound buf size behind loc = .ok (req', loc')) : req'.head.Diverged := by
  have kept (map : StringMap) (key value : Bytes) (present : (map.find? []).isSome) :
      ((map.insert key value).find? []).isSome := by
    simp [StringMap.find?_insert, present]
  unfold SHttpRequest.parseRound at done
  cases state : req.decodeState <;> simp only [state] at done
  case method | inUri | protocol | version | body =>
    (repeat' split at done) <;> first
      | (cases done; exact diverged)
      | (obtain ⟨text, _, done⟩ := Lib.bind_eq_ok.mp done; cases done; exact diverged)
  case uriParamValue =>
    (repeat' split at done) <;> first
      | (cases done; exact diverged)
      | (obtain ⟨key, _, done⟩ := Lib.bind_eq_ok.mp done
         obtain ⟨value, _, done⟩ := Lib.bind_eq_ok.mp done
         cases done; exact diverged.imp (kept _ key value) id)
  case headerValue =>
    split at done
    · obtain ⟨key, _, done⟩ := Lib.bind_eq_ok.mp done
      obtain ⟨value, _, done⟩ := Lib.bind_eq_ok.mp done
      cases done; exact diverged.imp id (kept _ key value)
    · cases done; exact diverged
  all_goals
    (repeat' split at done) <;> cases done <;> exact diverged

theorem SHttpRequest.parseLoop_diverged {req : SHttpRequest} (diverged : req.head.Diverged)
    (done : parseLoop buf size behind rounds req loc = .ok (req', loc')) : req'.head.Diverged := by
  induction rounds generalizing req loc with
  | zero => cases done; exact diverged
  | succ rounds ih =>
    unfold parseLoop at done
    split at done
    · obtain ⟨⟨req₁, loc₁⟩, round, done⟩ := Lib.bind_eq_ok.mp done
      exact ih (parseRound_diverged diverged round) done
    · cases done; exact diverged

private theorem insert_empty (map : StringMap) (value : Bytes) :
    ((map.insert [] value).find? []).isSome := by
  rw [StringMap.find?_insert]
  cases map.find? [] <;> simp

/-- Storing a token whose start was lost throws, or stores an empty name. -/
theorem SHttpRequest.parseRound_lost_stores {req : SHttpRequest} {scan : HeadScan}
    (same : req.head = scan.toParsedHead) (lost : loc.Lost scan)
    (stores : scan.decodeState.storesOn (byteAt buf scan.nextPos) = true)
    (done : req.parseRound buf size behind loc = .ok (req', loc')) : req'.head.Diverged := by
  obtain ⟨parsed, key, token⟩ := scan
  obtain rfl : req.head = parsed := same
  have lostEnd (token : StringBuffer) (null : token.pBegin = none) :
      StringBuffer.toString buf { token with pEnd := some req.nextPos } = .error .nullConstruction := by
    simp [StringBuffer.toString, null]
  obtain ⟨_, null⟩ := lost
  unfold SHttpRequest.parseRound at done
  cases state : req.decodeState <;>
    simp only [SHttpRequest.head, HttpRequestDecodeState.storesOn, ParseLocals.anchor, state, Bool.or_eq_true,
      Bool.false_eq_true] at stores null done
  case method =>
    rw [lostEnd _ null, not_upper_of_blank stores, stores] at done
    cases done
  case inUri =>
    rw [lostEnd _ null] at done
    rcases stores with mark | blank
    · rw [mark] at done; cases done
    · rw [blank] at done; split at done <;> cases done
  case protocol | version =>
    rw [lostEnd _ null, stores] at done
    cases done
  case uriParamValue =>
    have unnamed : ∀ name, loc.requestParamKey.toString buf = .ok name → name = [] := fun name named => by
      rcases StringBuffer.toString_null buf null with empty | thrown
      · exact (Except.ok.inj (empty.symm.trans named)).symm
      · rw [thrown] at named; cases named
    (repeat' split at done) <;> first
      | (obtain ⟨name, named, done⟩ := Lib.bind_eq_ok.mp done
         obtain ⟨value, _, done⟩ := Lib.bind_eq_ok.mp done
         obtain rfl := unnamed name named
         cases done
         exact .inl (insert_empty _ value))
      | (rename_i plain closed; exact absurd stores (not_or.mpr ⟨plain, closed⟩))
  case headerValue =>
    rw [stores] at done
    obtain ⟨name, named, done⟩ := Lib.bind_eq_ok.mp done
    obtain ⟨value, _, done⟩ := Lib.bind_eq_ok.mp done
    rcases StringBuffer.toString_null buf null with empty | thrown
    · obtain rfl := Except.ok.inj (empty.symm.trans named)
      cases done
      exact .inr (insert_empty _ value)
    · rw [thrown] at named; cases named

/-- Any other byte is read as the scan reads it, and the start stays lost. -/
theorem SHttpRequest.parseRound_lost_goes_on {req : SHttpRequest} {scan : HeadScan} (size : Nat) (behind : Bytes)
    (same : req.head = scan.toParsedHead) (lost : loc.Lost scan)
    (plain : scan.decodeState.storesOn (byteAt buf scan.nextPos) = false) :
    ∃ req' loc', req.parseRound buf size behind loc = .ok (req', loc') ∧
      req'.head = (scan.feed (byteAt buf scan.nextPos)).toParsedHead ∧
      ((scan.feed (byteAt buf scan.nextPos)).decodeState.isFinal = true ∨
        loc'.Lost (scan.feed (byteAt buf scan.nextPos))) := by
  obtain ⟨parsed, key, token⟩ := scan
  obtain rfl : req.head = parsed := same
  obtain ⟨reading, null⟩ := lost
  unfold SHttpRequest.parseRound HeadScan.feed
  cases state : req.decodeState <;>
    simp only [SHttpRequest.head, HttpRequestDecodeState.inToken, HttpRequestDecodeState.storesOn,
      ParseLocals.anchor, state, Bool.or_eq_false_iff, Bool.false_eq_true] at reading plain null ⊢
  case protocol | headerValue =>
    simp only [plain, Bool.false_eq_true, if_false]
    exact ⟨_, _, rfl, rfl, .inr ⟨rfl, null⟩⟩
  case method | version =>
    simp only [plain, Bool.false_eq_true, if_false]
    split_ifs <;> exact ⟨_, _, rfl, rfl, by first | exact .inl rfl | exact .inr ⟨rfl, null⟩⟩
  case inUri | uriParamValue =>
    simp only [plain.1, plain.2, Bool.false_eq_true, if_false]
    exact ⟨_, _, rfl, rfl, .inr ⟨rfl, null⟩⟩
  all_goals
    split_ifs <;> exact ⟨_, _, rfl, rfl, by first | exact .inl rfl | exact .inr ⟨rfl, null⟩⟩

private theorem not_final_of_inToken {state : HttpRequestDecodeState} (reading : state.inToken = true) :
    state.isFinal = false ∧ state ≠ .crLfCr := by
  cases state <;> simp [HttpRequestDecodeState.inToken, HttpRequestDecodeState.isFinal,
    HttpRequestDecodeState.isInvalid] at reading ⊢

private theorem completes_of_not_inToken {state : HttpRequestDecodeState} (between : state.inToken = false)
    (rest : Bytes) : state.completes rest = false := by
  cases rest <;> simp [HttpRequestDecodeState.completes, between]

private theorem not_inToken_of_final {state : HttpRequestDecodeState} (final : state.isFinal = true) :
    state.inToken = false := by
  cases reading : state.inToken with
  | false => rfl
  | true => rw [(not_final_of_inToken reading).1] at final; cases final

private theorem ParseLocals.intact_of_final {loc : ParseLocals} {scan : HeadScan} (size : Nat)
    (final : scan.decodeState.isFinal = true) : loc.Intact buf size scan := by
  unfold Intact
  revert final
  cases scan.decodeState <;> simp [HttpRequestDecodeState.isFinal, HttpRequestDecodeState.isInvalid]

theorem SHttpRequest.parseLoop_lost (rounds : Nat) {req : SHttpRequest} (read : req.ReadTo buf size n)
    (lost : loc.Lost (HeadScan.of (buf.take n))) (bodyInside : BodyInside buf size behind)
    (reach : n + rounds = size) :
    if (HeadScan.of (buf.take n)).decodeState.completes ((buf.take size).drop n) = true then
      ∀ req' loc', parseLoop buf size behind rounds req loc = .ok (req', loc') → req'.head.Diverged
    else ∃ req' loc', parseLoop buf size behind rounds req loc = .ok (req', loc') ∧
      req'.head = (HeadScan.of (buf.take size)).toParsedHead := by
  induction rounds generalizing req n loc with
  | zero =>
    rw [List.drop_eq_nil_of_le (by rw [List.length_take]; omega), ← reach]
    exact ⟨req, loc, rfl, read.head⟩
  | succ rounds ih =>
    obtain ⟨going, inHead⟩ := not_final_of_inToken lost.1
    have position := read.scanPos going
    have below : n < size := by omega
    rw [drop_take_byteAt below read.fits]
    simp only [HttpRequestDecodeState.completes, lost.1, Bool.true_and]
    cases stores : (HeadScan.of (buf.take n)).decodeState.storesOn (byteAt buf n) with
    | true =>
      simp only [Bool.true_or, if_true]
      intro req' loc' done
      rw [parseLoop_succ rounds buf behind loc (by rw [read.decodeState]; exact going)
        (by rw [read.nextPos going]; exact below)] at done
      obtain ⟨⟨req₁, loc₁⟩, round, done⟩ := Lib.bind_eq_ok.mp done
      exact parseLoop_diverged (parseRound_lost_stores read.head lost (by rw [position]; exact stores) round) done
    | false =>
      obtain ⟨req₁, loc₁, round, head, after⟩ := parseRound_lost_goes_on size behind read.head lost
        (by rw [position]; exact stores)
      rw [position] at head after
      obtain ⟨read₁, loop⟩ := read.step going below round head rounds
      rw [Bool.false_or, ← HeadScan.feed_decodeState inHead, loop, ← HeadScan.of_take_succ (below.trans_le read.fits)]
      rw [← HeadScan.of_take_succ (below.trans_le read.fits)] at after
      rcases after with final | lost₁
      · rw [completes_of_not_inToken (not_inToken_of_final final)]
        exact parseLoop_intact read₁ (ParseLocals.intact_of_final size final) bodyInside (.inl final)
      · exact ih read₁ lost₁ (by omega)

/-- One call from a request that the scan of the first `n` bytes describes. -/
theorem SHttpRequest.parseInternal_from {req : SHttpRequest} {buf : Bytes} {n size : Nat}
    (read : req.ReadTo buf size n) (bodyInside : BodyInside buf size behind) :
    if (HeadScan.of (buf.take n)).decodeState.completes ((buf.take size).drop n) = true then
      ∀ req', req.parseInternal buf size behind = .ok req' → req'.head.Diverged
    else ∃ req', req.parseInternal buf size behind = .ok req' ∧
      req'.head = (HeadScan.of (buf.take size)).toParsedHead := by
  cases reading : (HeadScan.of (buf.take n)).decodeState.inToken with
  | false =>
    rw [completes_of_not_inToken reading]
    exact parseInternal_intact read.head reading read.grows read.fits bodyInside
  | true =>
    have going := (not_final_of_inToken reading).1
    have lost : ({} : ParseLocals).Lost (HeadScan.of (buf.take n)) := by
      refine ⟨reading, ?_⟩
      cases (HeadScan.of (buf.take n)).decodeState <;> rfl
    have loop := parseLoop_lost (size - n) read lost bodyInside (Nat.add_sub_of_le read.grows)
    rw [parseInternal_at buf size behind (read.nextPos going)]
    split at loop
    · rename_i completed
      rw [if_pos completed]
      intro req' done
      obtain ⟨⟨req₁, loc₁⟩, looped, done⟩ := Lib.bind_eq_ok.mp done
      cases done
      exact loop _ _ looped
    · rename_i pending
      rw [if_neg pending]
      obtain ⟨req', loc', looped, head⟩ := loop
      exact ⟨req', by rw [looped]; rfl, head⟩

/-- One call for each received length, on the buffer that keeps filling up. -/
def SHttpRequest.parseChain (req : SHttpRequest) (buf : Bytes) (sizes : List Nat) (behind : Bytes) :
    Except StringFailure SHttpRequest :=
  sizes.foldlM (fun req size => req.parseInternal buf size behind) req

private theorem completes_append_left {state : HttpRequestDecodeState} {front : Bytes}
    (completed : state.completes front = true) (back : Bytes) : state.completes (front ++ back) = true := by
  induction front generalizing state with
  | nil => cases completed
  | cons ch rest ih =>
    simp only [HttpRequestDecodeState.completes, List.cons_append, Bool.and_eq_true, Bool.or_eq_true] at *
    exact ⟨completed.1, completed.2.imp id ih⟩

private theorem completes_append_right {state : HttpRequestDecodeState} {front back : Bytes}
    (completed : state.completes (front ++ back) = true) (pending : state.completes front = false) :
    (front.foldl HttpRequestDecodeState.after state).completes back = true := by
  induction front generalizing state with
  | nil => exact completed
  | cons ch rest ih =>
    simp only [HttpRequestDecodeState.completes, List.cons_append, Bool.and_eq_true, Bool.or_eq_true,
      Bool.and_eq_false_iff, Bool.or_eq_false_iff] at completed pending
    obtain ⟨reading, stored | later⟩ := completed
    · rcases pending with between | ⟨plain, _⟩
      · rw [reading] at between; cases between
      · rw [stored] at plain; cases plain
    · rcases pending with between | ⟨_, pending⟩
      · rw [reading] at between; cases between
      · exact ih later pending

private theorem completes_of (bytes rest : Bytes) :
    (HeadScan.of bytes).decodeState.completes rest = (lexState bytes).completes rest := by
  rcases HeadScan.of_decodeState bytes with same | ⟨complete, body⟩
  · rw [same]
  · rw [complete, body, completes_of_not_inToken rfl, completes_of_not_inToken rfl]

/-- Up to the next cut `m`, the token open at the cut `n` is either completed or cut again. -/
private theorem cutsToken_split (buf : Bytes) {n m : Nat} (grows : n ≤ m) :
    ((lexState (buf.take n)).completes ((buf.take m).drop n) = true → cutsToken buf n = true) ∧
      ((lexState (buf.take n)).completes ((buf.take m).drop n) = false → cutsToken buf n = true →
        cutsToken buf m = true) := by
  have window : buf.drop n = (buf.take m).drop n ++ buf.drop m := by
    have later : buf.drop m = (buf.drop n).drop (m - n) := by rw [List.drop_drop, Nat.add_sub_of_le grows]
    rw [List.drop_take, later, List.take_append_drop]
  have prefixes : buf.take m = buf.take n ++ (buf.take m).drop n := by
    have halves := List.take_append_drop n (buf.take m)
    rwa [List.take_take, Nat.min_eq_left grows, eq_comm] at halves
  unfold cutsToken
  refine ⟨fun completed => ?_, fun pending completed => ?_⟩
  · rw [window]
    exact completes_append_left completed _
  · rw [window] at completed
    have again := completes_append_right completed pending
    rw [prefixes]
    unfold lexState at again ⊢
    rwa [List.foldl_append]

private theorem SHttpRequest.parseChain_diverged {req : SHttpRequest} (diverged : req.head.Diverged)
    (done : req.parseChain buf sizes behind = .ok req') : req'.head.Diverged := by
  induction sizes generalizing req with
  | nil => cases done; exact diverged
  | cons size sizes ih =>
    rw [parseChain, List.foldlM_cons] at done
    obtain ⟨req₁, call, done⟩ := Lib.bind_eq_ok.mp done
    obtain ⟨⟨req₂, loc₂⟩, looped, same⟩ := Lib.bind_eq_ok.mp call
    cases same
    exact ih (parseLoop_diverged diverged looped) done

theorem SHttpRequest.parseChain_from (req : SHttpRequest) (buf : Bytes) (size : Nat) (behind : Bytes) (cuts : List Nat)
    (same : req.head = (HeadScan.of (buf.take n)).toParsedHead) (ascending : (n :: cuts).Pairwise (· ≤ ·))
    (within : ∀ m ∈ n :: cuts, m ≤ size) (fits : size ≤ buf.length) (bodyInside : BodyInside buf size behind) :
    if ∀ m ∈ n :: cuts, cutsToken (buf.take size) m = false then
      ∃ req', req.parseChain buf (cuts ++ [size]) behind = .ok req' ∧
        req'.head = (HeadScan.of (buf.take size)).toParsedHead
    else ∀ req', req.parseChain buf (cuts ++ [size]) behind = .ok req' → req'.head.Diverged := by
  have front {m : Nat} (below : m ≤ size) : (buf.take size).take m = buf.take m := by
    rw [List.take_take, Nat.min_eq_left below]
  induction cuts generalizing req n with
  | nil =>
    have below := within n (by simp)
    have call := parseInternal_from ⟨same, below, fits⟩ bodyInside
    rw [completes_of, ← front below] at call
    change if cutsToken (buf.take size) n = true then _ else _ at call
    simp only [List.nil_append, parseChain, List.foldlM_cons, List.foldlM_nil, bind_pure]
    split at call
    · rename_i completed
      rw [if_neg (by simp [completed])]
      exact call
    · rename_i pending
      rw [if_pos (by simpa using pending)]
      exact call
  | cons m cuts ih =>
    have grows : n ≤ m := (List.pairwise_cons.mp ascending).1 m (by simp)
    have below : m ≤ size := within m (by simp)
    have call := parseInternal_from ⟨same, grows, below.trans fits⟩ (bodyInside.mono below)
    have split := cutsToken_split (buf.take size) grows
    rw [← completes_of, front below, front (grows.trans below)] at split
    have unfolded : req.parseChain buf ((m :: cuts) ++ [size]) behind =
        (req.parseInternal buf m behind >>= fun req => req.parseChain buf (cuts ++ [size]) behind) := by
      simp [parseChain]
    rw [unfolded]
    split at call
    · rename_i completed
      have harmful := split.1 completed
      rw [if_neg (fun harmless => by rw [harmless n (by simp)] at harmful; cases harmful)]
      intro req' done
      obtain ⟨req₁, called, done⟩ := Lib.bind_eq_ok.mp done
      exact parseChain_diverged (call req₁ called) done
    · rename_i pending
      obtain ⟨req₁, called, head⟩ := call
      have rest := ih req₁ head (List.pairwise_cons.mp ascending).2 (fun m member => within m (by simp [member]))
      have same_cuts : (∀ k ∈ n :: m :: cuts, cutsToken (buf.take size) k = false) ↔
          ∀ k ∈ m :: cuts, cutsToken (buf.take size) k = false := by
        refine ⟨fun harmless k member => harmless k (by simp [member]), fun harmless k member => ?_⟩
        rcases List.mem_cons.mp member with rfl | member
        · cases harmful : cutsToken (buf.take size) k with
          | false => rfl
          | true =>
            have again := split.2 (by simpa using pending) harmful
            rw [harmless m (by simp)] at again
            cases again
        · exact harmless k member
      simp only [same_cuts, called]
      exact rest

/-- Two heads that a caller cannot tell apart. -/
structure ParsedHead.Agrees (one other : ParsedHead) : Prop where
  decodeState : one.decodeState = other.decodeState
  nextPos : one.nextPos = other.nextPos
  strMethod : one.strMethod = other.strMethod
  strUrl : one.strUrl = other.strUrl
  requestParams : ∀ key, one.requestParams.find? key = other.requestParams.find? key
  strProtocol : one.strProtocol = other.strProtocol
  strVersion : one.strVersion = other.strVersion
  headers : ∀ key, one.headers.find? key = other.headers.find? key

/-- Both parses return, and with the same head. -/
def SameResult : Except StringFailure SHttpRequest → Except StringFailure SHttpRequest → Prop
  | .ok one, .ok other => one.head.Agrees other.head
  | _, _ => False

/-- Parsing a byte string in several calls gives what one call gives exactly when no cut
falls inside a token that the string goes on to complete, and the one call copies no body from
outside of the memory that lies behind the string. -/
theorem parseChain_agrees_iff (req : SHttpRequest) (bytes behind : Bytes) (cuts : List Nat)
    (ascending : cuts.Pairwise (· ≤ ·)) (within : ∀ n ∈ cuts, n ≤ bytes.length) :
    SameResult (req.init.parseChain bytes (cuts ++ [bytes.length]) behind)
        (req.init.parseInternal bytes bytes.length behind) ↔
      BodyInside bytes bytes.length behind ∧ ∀ n ∈ cuts, cutsToken bytes n = false := by
  have fresh := SHttpRequest.parseInternal_fresh bytes behind le_rfl
  change SameResult _ (({} : SHttpRequest).parseInternal bytes bytes.length behind) ↔ _
  split at fresh
  · rename_i bodyInside
    obtain ⟨whole, once, head⟩ := fresh
    have chain := SHttpRequest.parseChain_from req.init bytes bytes.length behind cuts (n := 0) rfl
      (List.pairwise_cons.mpr ⟨fun n _ => Nat.zero_le n, ascending⟩) (by simpa using within) le_rfl bodyInside
    have start : cutsToken bytes 0 = false := completes_of_not_inToken rfl _
    rw [List.take_length] at head chain
    simp only [List.forall_mem_cons, start, true_and] at chain
    rw [once, and_iff_right bodyInside]
    split at chain
    · rename_i harmless
      obtain ⟨req', done, same⟩ := chain
      rw [done]
      refine ⟨fun _ => harmless, fun _ => ?_⟩
      rw [SameResult, same, ← head]
      exact ⟨rfl, rfl, rfl, rfl, fun _ => rfl, rfl, rfl, fun _ => rfl⟩
    · rename_i harmful
      refine ⟨fun agrees => ?_, fun harmless => absurd harmless harmful⟩
      cases done : req.init.parseChain bytes (cuts ++ [bytes.length]) behind with
      | error thrown => rw [done] at agrees; exact agrees.elim
      | ok req' =>
        rw [done] at agrees
        have named := HeadScan.named_of bytes
        rcases chain req' done with params | headers
        · rw [agrees.requestParams, head, named.requestParams] at params; cases params
        · rw [agrees.headers, head, named.headers] at headers; cases headers
  · rename_i outside
    rw [fresh]
    refine ⟨fun agrees => ?_, fun holds => absurd holds.1 outside⟩
    cases done : req.init.parseChain bytes (cuts ++ [bytes.length]) behind with
    | error failure => rw [done] at agrees; exact agrees.elim
    | ok req' => rw [done] at agrees; exact agrees.elim

def plainRequest : Bytes := ascii "GET / HTTP/1.1\r\n\r\n"

/-- A body that nobody sends, but for its first byte. -/
def hugeBody : Bytes := ascii "POST / HTTP/1.1\r\nContent-Length: 2000000000\r\n\r\nx"

theorem plainRequest_split :
    SameResult ((default : SHttpRequest).init.parseChain plainRequest ([4, 16] ++ [plainRequest.length]) [0])
        ((default : SHttpRequest).init.parseInternal plainRequest plainRequest.length [0]) ↔
      BodyInside plainRequest plainRequest.length [0] ∧ ∀ n ∈ [4, 16], cutsToken plainRequest n = false :=
  parseChain_agrees_iff default plainRequest [0] [4, 16] (by decide) (by decide)

/-- The first byte of the method arrives alone: the second call builds the method from a
null begin pointer. -/
theorem plainRequest_split_throws :
    (default : SHttpRequest).init.parseChain plainRequest ([1] ++ [plainRequest.length]) [0] =
      .error .nullConstruction ∧
    ¬ SameResult ((default : SHttpRequest).init.parseChain plainRequest ([1] ++ [plainRequest.length]) [0])
        ((default : SHttpRequest).init.parseInternal plainRequest plainRequest.length [0]) := by
  have thrown : (default : SHttpRequest).init.parseChain plainRequest ([1] ++ [plainRequest.length]) [0] =
      .error .nullConstruction := by decide +kernel
  refine ⟨thrown, ?_⟩
  rw [thrown]
  exact id

/-- Where the body is cut off behind the blank line its length is lost, and nothing is copied; the one call
copies it from the memory behind the one byte that is there. -/
example : ((({} : SHttpRequest).parseChain hugeBody ([hugeBody.length - 1] ++ [hugeBody.length]) [0]).toOption.map
      (·.decodeState) = some .complete) ∧
    ({} : SHttpRequest).parseInternal hugeBody hugeBody.length [0] = .error .segfault := by
  decide +kernel

end WSlyh.Http
