import WSlyh.Http.ParseRefinement

/-! The text of a request head: its parts, and the blanks that may stand between them. -/

namespace WSlyh.Http

open Libc

/-- Any number of bytes of one kind. -/
structure Run (allowed : UInt8 → Bool) where
  bytes : Bytes
  allowed : ∀ ch ∈ bytes, allowed ch = true

/-- At least one byte, all of one kind. -/
structure Word (allowed : UInt8 → Bool) extends Run allowed where
  nonempty : bytes ≠ []

def isSeparator (ch : UInt8) : Bool := ch == CR || ch == LF || isblank ch
def isPath (ch : UInt8) : Bool := !isSeparator ch && ch != 63
def isParamKey (ch : UInt8) : Bool := !isSeparator ch && ch != 61 && ch != 38
def isParamValue (ch : UInt8) : Bool := !isSeparator ch && ch != 38
def isProtocol (ch : UInt8) : Bool := !isSeparator ch && ch != 47
def isHeaderName (ch : UInt8) : Bool := !isSeparator ch && ch != 58
def isHeaderValue (ch : UInt8) : Bool := ch != CR

structure RequestParam where
  key : Word isParamKey
  value : Word isParamValue

structure RequestHeader where
  name : Word isHeaderName
  beforeColon : Run isblank
  afterColon : Run isblank
  value : Word isHeaderValue
  plain : ∀ ch ∈ value.bytes.head?, isblank ch = false

structure RequestVersion where
  digits : Word isdigit
  more : List (Word isdigit)

/-- `path` is what follows the slash. -/
structure RequestText where
  leading : Run isSeparator
  method : Word isupper
  beforeUri : Word isblank
  path : Run isPath
  params : List RequestParam
  beforeProtocol : Word isblank
  protocol : Word isProtocol
  version : RequestVersion
  headers : List RequestHeader

def RequestParam.entry (param : RequestParam) : Bytes × Bytes := (param.key.bytes, param.value.bytes)
def RequestHeader.entry (header : RequestHeader) : Bytes × Bytes := (header.name.bytes, header.value.bytes)
def RequestText.url (text : RequestText) : Bytes := 47 :: text.path.bytes

def RequestParam.render (param : RequestParam) : Bytes := param.key.bytes ++ 61 :: param.value.bytes

/-- A question mark before the first of them, and an ampersand before each other. -/
def renderParams : List RequestParam → Bytes
  | [] => []
  | param :: params => 63 :: param.render ++ params.flatMap fun param => 38 :: param.render

def RequestVersion.render (version : RequestVersion) : Bytes :=
  version.digits.bytes ++ version.more.flatMap fun digits => 46 :: digits.bytes

def RequestHeader.render (header : RequestHeader) : Bytes :=
  header.name.bytes ++ header.beforeColon.bytes ++ 58 :: header.afterColon.bytes ++ header.value.bytes ++ [CR, LF]

/-- The request line and the headers. -/
def RequestText.lines (text : RequestText) : Bytes :=
  text.leading.bytes ++ text.method.bytes ++ text.beforeUri.bytes ++ text.url ++
    (renderParams text.params ++ text.beforeProtocol.bytes) ++
    (text.protocol.bytes ++ 47 :: text.version.render ++ [CR, LF]) ++ text.headers.flatMap RequestHeader.render

/-- The blank line ends it. -/
def RequestText.render (text : RequestText) : Bytes := text.lines ++ [CR, LF]

example : ∃ text : RequestText, text.render = ascii "GET  /a?k=v HTTP/1.1\r\nHost : b\r\n\r\n" := by
  refine ⟨{
    leading := ⟨[], List.all_eq_true.mp rfl⟩
    method := ⟨⟨ascii "GET", List.all_eq_true.mp rfl⟩, by decide⟩
    beforeUri := ⟨⟨ascii "  ", List.all_eq_true.mp rfl⟩, by decide⟩
    path := ⟨ascii "a", List.all_eq_true.mp rfl⟩
    params := [⟨⟨⟨ascii "k", List.all_eq_true.mp rfl⟩, by decide⟩, ⟨⟨ascii "v", List.all_eq_true.mp rfl⟩, by decide⟩⟩]
    beforeProtocol := ⟨⟨ascii " ", List.all_eq_true.mp rfl⟩, by decide⟩
    protocol := ⟨⟨ascii "HTTP", List.all_eq_true.mp rfl⟩, by decide⟩
    version := ⟨⟨⟨ascii "1", List.all_eq_true.mp rfl⟩, by decide⟩, [⟨⟨ascii "1", List.all_eq_true.mp rfl⟩, by decide⟩]⟩
    headers := [{
      name := ⟨⟨ascii "Host", List.all_eq_true.mp rfl⟩, by decide⟩
      beforeColon := ⟨ascii " ", List.all_eq_true.mp rfl⟩
      afterColon := ⟨ascii " ", List.all_eq_true.mp rfl⟩
      value := ⟨⟨ascii "b", List.all_eq_true.mp rfl⟩, by decide⟩
      plain := fun ch member => by cases member; rfl }] }, ?_⟩
  decide

/-- The insertions of one call after the other. -/
def StringMap.insertAll (map : StringMap) (entries : List (Bytes × Bytes)) : StringMap :=
  entries.foldl (fun map entry => map.insert entry.1 entry.2) map

/-- Of the values of a key the first one stays. -/
theorem StringMap.find?_insertAll (map : StringMap) (entries : List (Bytes × Bytes)) (key : Bytes) :
    (map.insertAll entries).find? key = (map.find? key).or (entries.lookup key) := by
  induction entries generalizing map with
  | nil => simp [insertAll]
  | cons entry entries ih =>
    have next := ih (map.insert entry.1 entry.2)
    rw [find?_insert] at next
    rw [insertAll, List.foldl_cons, ← insertAll, next, Option.or_assoc, List.lookup_cons]
    by_cases same : key = entry.1
    · simp [same]
    · simp [same, beq_false_of_ne same]

/-- Each key handed to the map is there. -/
theorem StringMap.find?_insertAll_mem {entries : List (Bytes × Bytes)} {entry : Bytes × Bytes}
    (member : entry ∈ entries) :
    ∃ value, (StringMap.insertAll {} entries).find? entry.1 = some value := by
  rw [find?_insertAll]
  have empty : ({} : StringMap).find? entry.1 = none := rfl
  rw [empty, Option.none_or]
  cases found : entries.lookup entry.1 with
  | some value => exact ⟨value, rfl⟩
  | none =>
    have absent := List.lookup_eq_none_iff.mp found entry member
    simp at absent

/-- What is found in the map was handed to it. -/
theorem StringMap.mem_of_find?_insertAll {entries : List (Bytes × Bytes)} {key value : Bytes}
    (found : (StringMap.insertAll {} entries).find? key = some value) : (key, value) ∈ entries := by
  rw [find?_insertAll] at found
  have empty : ({} : StringMap).find? key = none := rfl
  rw [empty, Option.none_or] at found
  obtain ⟨before, behind, rfl, _⟩ := List.lookup_eq_some_iff.mp found
  simp

namespace HttpRequestDecodeState

/-- The bytes that a state passes over. -/
def skips : HttpRequestDecodeState → UInt8 → Bool
  | .start, ch => isSeparator ch
  | .beforeUri, ch | .beforeProtocol, ch | .headerBeforeColon, ch | .headerAfterColon, ch => isblank ch
  | _, _ => false

/-- The bytes that belong to the open token. -/
def takes : HttpRequestDecodeState → UInt8 → Bool
  | .method, ch => isupper ch
  | .inUri, ch => !(ch == 63 || isblank ch)
  | .uriParamKey, ch => !(ch == 61 || isblank ch)
  | .uriParamValue, ch => !(ch == 38 || isblank ch)
  | .protocol, ch => ch != 47
  | .version, ch => isdigit ch
  | .headerKey, ch => !(isblank ch || ch == 58)
  | .headerValue, ch => ch != CR
  | _, _ => false

/-- The state to which the first byte of a token leads. -/
def opens : HttpRequestDecodeState → UInt8 → Option HttpRequestDecodeState
  | .start, ch => if isupper ch then some .method else none
  | .beforeUri, ch => if ch == 47 then some .inUri else none
  | .beforeUriParamKey, ch => if isSeparator ch then none else some .uriParamKey
  | .beforeUriParamValue, ch => if isSeparator ch then none else some .uriParamValue
  | .beforeProtocol, ch => if isblank ch then none else some .protocol
  | .beforeVersion, ch => if isdigit ch then some .version else none
  | .headerAfterColon, ch => if isblank ch then none else some .headerValue
  | .crLf, ch => if ch == CR || isblank ch then none else some .headerKey
  | _, _ => none

end HttpRequestDecodeState

namespace HeadScan

variable {scan : HeadScan} {ch : UInt8} {bytes : Bytes} {state : HttpRequestDecodeState}

/-- What the scan knows after some more bytes, the position aside. -/
def read (scan : HeadScan) (bytes : Bytes) : HeadScan := { bytes.foldl feed scan with nextPos := 0 }

theorem feed_position (scan : HeadScan) (ch : UInt8) (pos : Nat) :
    { ({ scan with nextPos := pos } : HeadScan).feed ch with nextPos := 0 } = { scan.feed ch with nextPos := 0 } := by
  unfold feed
  cases state : scan.decodeState <;> simp only [] <;> grind

theorem read_position (scan : HeadScan) (bytes : Bytes) (pos : Nat) :
    ({ scan with nextPos := pos } : HeadScan).read bytes = scan.read bytes := by
  induction bytes generalizing scan pos with
  | nil => rfl
  | cons ch bytes ih =>
    have moved := feed_position scan ch pos
    have first := ih (({ scan with nextPos := pos } : HeadScan).feed ch) 0
    have second := ih (scan.feed ch) 0
    rw [moved] at first
    exact first.symm.trans second

theorem read_append (scan : HeadScan) (front back : Bytes) :
    scan.read (front ++ back) = (scan.read front).read back := by
  have whole : scan.read (front ++ back) = (front.foldl feed scan).read back := by
    rw [read, read, List.foldl_append]
  exact whole.trans (read_position (front.foldl feed scan) back 0).symm

theorem read_cons (scan : HeadScan) (ch : UInt8) (bytes : Bytes) :
    scan.read (ch :: bytes) = (scan.read [ch]).read bytes :=
  scan.read_append [ch] bytes

theorem feed_skips (skips : scan.decodeState.skips ch = true) :
    scan.feed ch = { scan with nextPos := scan.nextPos + 1 } := by
  unfold feed
  cases state : scan.decodeState <;> simp only [state, HttpRequestDecodeState.skips, isSeparator, Bool.false_eq_true]
    at skips ⊢ <;> grind [isblank]

theorem feed_takes (takes : scan.decodeState.takes ch = true) :
    scan.feed ch = { scan with nextPos := scan.nextPos + 1, token := scan.token ++ [ch] } := by
  unfold feed
  cases state : scan.decodeState <;> simp only [state, HttpRequestDecodeState.takes, Bool.false_eq_true] at takes ⊢ <;>
    grind [isdigit, CR]

theorem feed_opens (opens : scan.decodeState.opens ch = some state) :
    scan.feed ch = { scan with decodeState := state, nextPos := scan.nextPos + 1, token := [ch] } := by
  unfold feed
  cases here : scan.decodeState <;> simp only [here, HttpRequestDecodeState.opens, isSeparator, reduceCtorEq]
    at opens ⊢ <;> grind [isupper, isblank, CR, LF]

theorem read_skips (skips : ∀ ch ∈ bytes, scan.decodeState.skips ch = true) :
    scan.read bytes = { scan with nextPos := 0 } := by
  induction bytes with
  | nil => rfl
  | cons ch bytes ih =>
    have first : scan.read (ch :: bytes) = (scan.feed ch).read bytes := rfl
    rw [first, feed_skips (skips ch (by simp)), read_position, ih fun other member => skips other (by simp [member])]

theorem read_takes (takes : ∀ ch ∈ bytes, scan.decodeState.takes ch = true) :
    scan.read bytes = { scan with nextPos := 0, token := scan.token ++ bytes } := by
  induction bytes generalizing scan with
  | nil => simp [read]
  | cons ch bytes ih =>
    have first : scan.read (ch :: bytes) = (scan.feed ch).read bytes := rfl
    have rest := @ih { scan with nextPos := scan.nextPos + 1, token := scan.token ++ [ch] } fun other member =>
      takes other (by simp [member])
    rw [first, feed_takes (takes ch (by simp)), rest]
    simp

/-- A token is read from its first byte to its last. -/
theorem read_word (word : Word allowed) (opens : ∀ ch ∈ word.bytes.head?, scan.decodeState.opens ch = some state)
    (takes : ∀ ch, allowed ch = true → state.takes ch = true) :
    scan.read word.bytes = { scan with decodeState := state, nextPos := 0, token := word.bytes } := by
  obtain ⟨ch, rest, split⟩ := List.exists_cons_of_ne_nil word.nonempty
  have kept (other : UInt8) (member : other ∈ rest) : state.takes other = true := by
    apply takes
    apply word.allowed
    simp [split, member]
  have first : scan.read (ch :: rest) = (scan.feed ch).read rest := rfl
  rw [split, first, feed_opens (opens ch (by simp [split])), read_takes kept]
  rfl

/-- The first of some blanks ends a token, and the others are passed over. -/
theorem read_gap {scan' : HeadScan} (gap : Word isblank) (stores : ∀ ch, isblank ch = true → scan.read [ch] = scan')
    (skips : ∀ ch, isblank ch = true → scan'.decodeState.skips ch = true) : scan.read gap.bytes = scan' := by
  obtain ⟨ch, rest, split⟩ := List.exists_cons_of_ne_nil gap.nonempty
  have stored := stores ch (gap.allowed ch (by simp [split]))
  have passed (other : UInt8) (member : other ∈ rest) : scan'.decodeState.skips other = true := by
    apply skips
    apply gap.allowed
    simp [split, member]
  rw [split, read_cons, stored, read_skips passed, ← stored]
  rfl

end HeadScan

end WSlyh.Http
