import WSlyh.Http.Request
import Mathlib.Data.List.Induction

/-! A pointer-free account of the request head: one byte at a time, with the text of
the open token carried along. Splitting the input means nothing to it, since it keeps
between two bytes everything that it knows. -/

namespace WSlyh.Http

open Libc

/-- What parsing a request head leaves behind, the body aside. -/
structure ParsedHead where
  decodeState : HttpRequestDecodeState := .start
  nextPos : Nat := 0
  strMethod : Bytes := []
  strUrl : Bytes := []
  requestParams : StringMap := {}
  strProtocol : Bytes := []
  strVersion : Bytes := []
  headers : StringMap := {}
  deriving DecidableEq

def SHttpRequest.head (req : SHttpRequest) : ParsedHead where
  decodeState := req.decodeState
  nextPos := req.nextPos
  strMethod := req.strMethod
  strUrl := req.strUrl
  requestParams := req.requestParams
  strProtocol := req.strProtocol
  strVersion := req.strVersion
  headers := req.headers

/-- A head in the making: `token` is the text of the token being read, `key` the
finished name whose value is still to come. -/
structure HeadScan extends ParsedHead where
  key : Bytes := []
  token : Bytes := []

/-- Read one more byte of the head. -/
def HeadScan.feed (scan : HeadScan) (ch : UInt8) : HeadScan :=
  let go (state : HttpRequestDecodeState) : HeadScan :=
    { scan with decodeState := state, nextPos := scan.nextPos + 1 }
  let first (state : HttpRequestDecodeState) : HeadScan := { go state with token := [ch] }
  let more (state : HttpRequestDecodeState) : HeadScan := { go state with token := scan.token ++ [ch] }
  let name (state : HttpRequestDecodeState) : HeadScan := { go state with key := scan.token }
  match scan.decodeState with
  | .start =>
    if ch == CR || ch == LF || isblank ch then go .start
    else if isupper ch then first .method else go .invalid
  | .method =>
    if isupper ch then more .method
    else if isblank ch then { go .beforeUri with strMethod := scan.token } else go .invalidMethod
  | .beforeUri =>
    if ch == 47 then first .inUri else if isblank ch then go .beforeUri else go .invalid
  | .inUri =>
    if ch == 63 then { go .beforeUriParamKey with strUrl := scan.token }
    else if isblank ch then { go .beforeProtocol with strUrl := scan.token } else more .inUri
  | .beforeUriParamKey =>
    if isblank ch || ch == LF || ch == CR then go .invalidUri else first .uriParamKey
  | .uriParamKey =>
    if ch == 61 then name .beforeUriParamValue
    else if isblank ch then go .invalidUri else more .uriParamKey
  | .beforeUriParamValue =>
    if isblank ch || ch == LF || ch == CR then go .invalidUri else first .uriParamValue
  | .uriParamValue =>
    if ch == 38 then
      { go .beforeUriParamKey with requestParams := scan.requestParams.insert scan.key scan.token }
    else if isblank ch then
      { go .beforeProtocol with requestParams := scan.requestParams.insert scan.key scan.token }
    else more .uriParamValue
  | .beforeProtocol => if isblank ch then go .beforeProtocol else first .protocol
  | .protocol =>
    if ch == 47 then { go .beforeVersion with strProtocol := scan.token } else more .protocol
  | .beforeVersion => if isdigit ch then first .version else go .invalidVersion
  | .version =>
    if ch == CR then { go .whenCr with strVersion := scan.token }
    else if ch == 46 then more .versionSplit
    else if isdigit ch then more .version else go .invalidVersion
  | .versionSplit => if isdigit ch then more .version else go .invalidVersion
  | .headerKey =>
    if isblank ch then name .headerBeforeColon
    else if ch == 58 then name .headerAfterColon else more .headerKey
  | .headerBeforeColon =>
    if isblank ch then go .headerBeforeColon
    else if ch == 58 then go .headerAfterColon else go .invalidHeader
  | .headerAfterColon => if isblank ch then go .headerAfterColon else first .headerValue
  | .headerValue =>
    if ch == CR then { go .whenCr with headers := scan.headers.insert scan.key scan.token }
    else more .headerValue
  | .whenCr => if ch == LF then go .crLf else go .invalid
  | .crLf =>
    if ch == CR then go .crLfCr else if isblank ch then go .invalid else first .headerKey
  | .crLfCr =>
    if ch == LF then
      match scan.headers.find? contentLengthName with
      | some text => if atoi text > 0 then go .body else go .complete
      | none => go .body
    else go .invalidHeader
  | .body => go .complete
  | .opened => go .opened
  | .invalid | .invalidMethod | .invalidUri | .invalidVersion | .invalidHeader | .complete => scan

/-- Read a byte string from the start of a request. -/
def HeadScan.of (bytes : Bytes) : HeadScan := bytes.foldl HeadScan.feed {}

theorem HeadScan.of_append (front back : Bytes) :
    HeadScan.of (front ++ back) = back.foldl HeadScan.feed (HeadScan.of front) :=
  List.foldl_append

@[simp] theorem HeadScan.of_nil : HeadScan.of [] = {} := rfl

theorem HeadScan.of_snoc (bytes : Bytes) (ch : UInt8) :
    HeadScan.of (bytes ++ [ch]) = (HeadScan.of bytes).feed ch := by
  simp [HeadScan.of]

/-- Where the body ends that a call over `size` bytes copies: it starts behind the blank line and is as
long as the head declares. Without a `Content-Length` the copy ends one byte past `size`. -/
def ParsedHead.bodyEnd (head : ParsedHead) (size : Nat) : Nat :=
  match head.headers.find? contentLengthName with
  | some text => head.nextPos + (atoi text).toNat
  | none => size + 1

/-- One call over `size` bytes of the buffer copies no body from beyond the memory behind it. -/
def BodyInside (buf : Bytes) (size : Nat) (behind : Bytes) : Prop :=
  ∀ pos < size, (HeadScan.of (buf.take pos)).decodeState = .body →
    (HeadScan.of (buf.take pos)).bodyEnd size ≤ (buf ++ behind).length

instance (buf : Bytes) (size : Nat) (behind : Bytes) : Decidable (BodyInside buf size behind) :=
  inferInstanceAs (Decidable (∀ pos < size, _ → _))

theorem ParsedHead.bodyEnd_mono (head : ParsedHead) {size : Nat} (grows : n ≤ size) :
    head.bodyEnd n ≤ head.bodyEnd size := by
  unfold bodyEnd
  split <;> omega

/-- What fewer bytes ask for, more bytes ask for as well. -/
theorem BodyInside.mono (inside : BodyInside buf size behind) (grows : n ≤ size) : BodyInside buf n behind := by
  intro pos below body
  exact ((HeadScan.of (buf.take pos)).bodyEnd_mono grows).trans (inside pos (below.trans_le grows) body)

/-- Only the received bytes count, and how far the memory goes. -/
theorem BodyInside.congr {buf other : Bytes} (inside : BodyInside buf size behind)
    (same : other.take size = buf.take size)
    (reach : (buf ++ behind).length ≤ (other ++ further).length) : BodyInside other size further := by
  intro pos below body
  have front : other.take pos = buf.take pos := by
    have cut := congrArg (List.take pos) same
    rwa [List.take_take, List.take_take, Nat.min_eq_left below.le] at cut
  rw [front] at body ⊢
  exact (inside pos below body).trans reach

theorem HeadScan.feed_final {scan : HeadScan} (final : scan.decodeState.isFinal = true) (ch : UInt8) :
    scan.feed ch = scan := by
  unfold feed
  cases state : scan.decodeState <;> simp [state, HttpRequestDecodeState.isFinal,
    HttpRequestDecodeState.isInvalid] at final ⊢

theorem HeadScan.foldl_final {scan : HeadScan} (final : scan.decodeState.isFinal = true) (bytes : Bytes) :
    bytes.foldl HeadScan.feed scan = scan := by
  induction bytes with
  | nil => rfl
  | cons ch rest ih => rw [List.foldl_cons, feed_final final, ih]

/-- Up to the blank line the parser goes on, and no body is to come yet. -/
theorem HeadScan.of_front (blankLine : (HeadScan.of front).decodeState = .crLfCr) (before : part <+: front) :
    (HeadScan.of part).decodeState.isFinal = false ∧ (HeadScan.of part).decodeState ≠ .body := by
  obtain ⟨rest, rfl⟩ := before
  rw [of_append] at blankLine
  constructor
  · cases final : (HeadScan.of part).decodeState.isFinal with
    | false => rfl
    | true =>
      rw [foldl_final final] at blankLine
      rw [blankLine] at final
      cases final
  · intro body
    cases rest with
    | nil =>
      rw [List.foldl_nil, body] at blankLine
      cases blankLine
    | cons ch rest =>
      have complete : ((HeadScan.of part).feed ch).decodeState = .complete := by
        unfold feed
        rw [body]
      rw [List.foldl_cons, foldl_final (by rw [complete]; rfl), complete] at blankLine
      cases blankLine

/-- A call that comes no further than the blank line copies nothing. -/
theorem BodyInside.of_front (blankLine : (HeadScan.of front).decodeState = .crLfCr) (before : part <+: front ++ [LF])
    (behind : Bytes) : BodyInside part part.length behind := by
  intro pos below body
  have length := before.length_le
  rw [List.length_append, List.length_singleton] at length
  have inFront : part.take pos <+: front := by
    apply List.prefix_of_prefix_length_le ((List.take_prefix pos part).trans before) (List.prefix_append front [LF])
    rw [List.length_take]
    omega
  exact absurd body (HeadScan.of_front blankLine inFront).2

theorem HeadScan.feed_nextPos {scan : HeadScan} (open_ : scan.decodeState.isFinal = false) (ch : UInt8) :
    (scan.feed ch).nextPos = scan.nextPos + 1 := by
  unfold feed
  cases state : scan.decodeState <;> simp [state, HttpRequestDecodeState.isFinal,
    HttpRequestDecodeState.isInvalid] at open_ ⊢ <;> grind

theorem HeadScan.of_nextPos (bytes : Bytes) :
    (HeadScan.of bytes).decodeState.isFinal = true ∨ (HeadScan.of bytes).nextPos = bytes.length := by
  induction bytes using List.reverseRecOn with
  | nil => exact .inr rfl
  | append_singleton bytes ch ih =>
    rw [of_snoc]
    rcases ih with final | length
    · exact .inl (by rw [feed_final final]; exact final)
    · cases final : (HeadScan.of bytes).decodeState.isFinal with
      | true => exact .inl (by rw [feed_final final]; exact final)
      | false => exact .inr (by rw [feed_nextPos final, length, List.length_append]; rfl)

/-- The scan of a part of the buffer that stops early is the scan of the rest as well. -/
theorem HeadScan.of_take_final {buf : Bytes} (final : (HeadScan.of (buf.take n)).decodeState.isFinal = true)
    (grows : n ≤ size) : HeadScan.of (buf.take size) = HeadScan.of (buf.take n) := by
  have split : buf.take n ++ (buf.take size).drop n = buf.take size := by
    have halves := List.take_append_drop n (buf.take size)
    rwa [List.take_take, Nat.min_eq_left grows] at halves
  rw [← split, of_append, foldl_final final]

theorem HeadScan.of_take_nextPos {buf : Bytes} (going : (HeadScan.of (buf.take n)).decodeState.isFinal = false)
    (fits : n ≤ buf.length) : (HeadScan.of (buf.take n)).nextPos = n := by
  have length := (of_nextPos (buf.take n)).resolve_left (by simp [going])
  rw [length, List.length_take, Nat.min_eq_left fits]

/-- Names are never empty: the byte that opens one belongs to it. -/
structure HeadScan.Named (scan : HeadScan) : Prop where
  token : scan.decodeState = .uriParamKey ∨ scan.decodeState = .headerKey → scan.token ≠ []
  key : scan.decodeState = .beforeUriParamValue ∨ scan.decodeState = .uriParamValue ∨
    scan.decodeState = .headerBeforeColon ∨ scan.decodeState = .headerAfterColon ∨
    scan.decodeState = .headerValue → scan.key ≠ []
  requestParams : scan.requestParams.find? [] = none
  headers : scan.headers.find? [] = none

theorem HeadScan.Named.feed {scan : HeadScan} (named : scan.Named) (ch : UInt8) : (scan.feed ch).Named := by
  obtain ⟨token, key, requestParams, headers⟩ := named
  unfold HeadScan.feed
  cases state : scan.decodeState <;> simp only [state] at token key ⊢ <;>
    (repeat' split) <;> constructor <;> simp_all [StringMap.find?_insert]

theorem HeadScan.named_of (bytes : Bytes) : (HeadScan.of bytes).Named := by
  induction bytes using List.reverseRecOn with
  | nil => exact ⟨by simp, by simp, rfl, rfl⟩
  | append_singleton bytes ch ih => rw [of_snoc]; exact ih.feed ch

theorem not_upper_of_blank (blank : isblank ch = true) : isupper ch = false := by
  simp only [isblank, isupper] at *
  grind

/-- The states between the first byte of a token and the byte that stores it. A parameter
or a header counts as one token from its name to the end of its value. -/
def HttpRequestDecodeState.inToken : HttpRequestDecodeState → Bool
  | .method | .inUri | .uriParamKey | .beforeUriParamValue | .uriParamValue | .protocol
  | .version | .versionSplit | .headerKey | .headerBeforeColon | .headerAfterColon | .headerValue => true
  | _ => false

/-- The bytes on which a state stores the token that is open. -/
def HttpRequestDecodeState.storesOn : HttpRequestDecodeState → UInt8 → Bool
  | .method, ch => isblank ch
  | .inUri, ch => ch == 63 || isblank ch
  | .uriParamValue, ch => ch == 38 || isblank ch
  | .protocol, ch => ch == 47
  | .version, ch | .headerValue, ch => ch == CR
  | _, _ => false

/-- The next state as far as the bytes alone decide it. -/
def HttpRequestDecodeState.after (state : HttpRequestDecodeState) (ch : UInt8) : HttpRequestDecodeState :=
  (HeadScan.feed { decodeState := state } ch).decodeState

def lexState (bytes : Bytes) : HttpRequestDecodeState :=
  bytes.foldl HttpRequestDecodeState.after .start

/-- The bytes to come store the token that is open in this state. -/
def HttpRequestDecodeState.completes : HttpRequestDecodeState → Bytes → Bool
  | _, [] => false
  | state, ch :: rest => state.inToken && (state.storesOn ch || (state.after ch).completes rest)

/-- A cut after `n` bytes falls inside a token that `bytes` goes on to complete. -/
def cutsToken (bytes : Bytes) (n : Nat) : Bool :=
  (lexState (bytes.take n)).completes (bytes.drop n)

theorem HeadScan.feed_decodeState {scan : HeadScan} (inHead : scan.decodeState ≠ .crLfCr) (ch : UInt8) :
    (scan.feed ch).decodeState = scan.decodeState.after ch := by
  unfold HttpRequestDecodeState.after HeadScan.feed
  cases state : scan.decodeState <;> simp only [state, ne_eq, reduceCtorEq, not_true_eq_false,
    not_false_eq_true] at inHead ⊢ <;> grind

/-- The bytes decide the state up to the blank line; past it they do not tell whether a
body is to come. -/
private theorem HeadScan.feed_crLfCr {scan : HeadScan} (blank : scan.decodeState = .crLfCr) (ch : UInt8) :
    (scan.feed ch).decodeState = HttpRequestDecodeState.after .crLfCr ch ∨
      ((scan.feed ch).decodeState = .complete ∧ HttpRequestDecodeState.after .crLfCr ch = .body) := by
  have absent : ({ } : StringMap).find? contentLengthName = none := rfl
  unfold HttpRequestDecodeState.after HeadScan.feed
  simp only [blank, absent]
  by_cases newline : (ch == LF) = true
  · simp only [newline, if_true]
    split
    · split <;> simp
    · simp
  · simp [newline]

theorem lexState_snoc (bytes : Bytes) (ch : UInt8) : lexState (bytes ++ [ch]) = (lexState bytes).after ch := by
  simp [lexState]

theorem HeadScan.of_decodeState (bytes : Bytes) :
    (HeadScan.of bytes).decodeState = lexState bytes ∨
      ((HeadScan.of bytes).decodeState = .complete ∧ lexState bytes = .body) := by
  induction bytes using List.reverseRecOn with
  | nil => exact .inl rfl
  | append_singleton bytes ch ih =>
    rw [of_snoc, lexState_snoc]
    rcases ih with same | ⟨complete, body⟩
    · by_cases blank : (HeadScan.of bytes).decodeState = .crLfCr
      · rw [← same, blank]
        exact feed_crLfCr blank ch
      · exact .inl (by rw [feed_decodeState blank, same])
    · refine .inl ?_
      rw [feed_final (by rw [complete]; rfl), complete, body]
      rfl

end WSlyh.Http
