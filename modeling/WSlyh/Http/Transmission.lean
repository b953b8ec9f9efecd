import WSlyh.Http.Response

/-! The way of a file response through any number of `writev` calls. Its bytes are told
apart by their addresses, so that a byte sent twice or from the wrong place is visible. -/

namespace WSlyh.Http

open Libc

/-- The addresses of the first `size` bytes of a region. -/
def Region.pointers (region : Region) (size : Nat) : List Pointer :=
  (List.range size).map fun i : Nat => ⟨region, i⟩

theorem Region.length_pointers (region : Region) (size : Nat) : (region.pointers size).length = size := by
  simp [Region.pointers]

def Effect.sent : Effect → List Pointer
  | .send bytes => bytes
  | _ => []

/-- Everything the effects hand to the socket, in order. -/
def sentBytes (effects : List Effect) : List Pointer := (effects.map Effect.sent).flatten

/-- `Write`, called again by later `EPOLLOUT` events as long as it leaves bytes to send. -/
def CHttp.writeCalls (conn : CHttp) (results : List WritevResult) : Nat → WriteRun
  | 0 => conn.write results
  | calls + 1 =>
    let run := conn.write results
    if run.ret = some true ∧ run.conn.dataLen ≠ 0 then
      let later := run.conn.writeCalls run.rest calls
      { later with effects := run.effects ++ later.effects }
    else run

def CHttp.bytes (conn : CHttp) (contents : FileAddr → Bytes) : Region → Bytes
  | .writeData => conn.writeData
  | .file addr => contents addr

/-- The byte at an address, where there is one. -/
def CHttp.load (conn : CHttp) (contents : FileAddr → Bytes) (pointer : Pointer) : Option UInt8 :=
  if pointer.offset < 0 then none else (conn.bytes contents pointer.region)[pointer.offset.toNat]?

theorem CHttp.load_pointers (conn : CHttp) (contents : FileAddr → Bytes) (region : Region) {size : Nat}
    (fits : size ≤ (conn.bytes contents region).length) :
    (region.pointers size).map (conn.load contents) = ((conn.bytes contents region).take size).map some := by
  apply List.ext_getElem
  · simp only [Region.pointers, List.length_map, List.length_range, List.length_take]
    omega
  · intro i inside _
    have small : i < size := by simpa [Region.pointers] using inside
    have present : i < (conn.bytes contents region).length := by omega
    simp [Region.pointers, load, present]

/-- A result that `writev` may return for the vectors of `conn`. -/
def WritevResult.Legal (result : WritevResult) (conn : CHttp) : Prop :=
  result = ⟨-1, .eagain⟩ ∨ 1 ≤ result.ret ∧ result.ret ≤ conn.iv0.len + conn.iv1.len

instance (result : WritevResult) (conn : CHttp) : Decidable (result.Legal conn) :=
  inferInstanceAs (Decidable (_ ∨ _))

/-- The results are those of all the `writev` calls until `Write` has nothing left to send,
and there are events enough to call it after every `EAGAIN`. -/
structure CHttp.Transmission (conn : CHttp) (calls : Nat) (results : List WritevResult) : Prop where
  enough : results.length ≤ calls
  asked : ∀ i < results.length, (conn.writeCalls (results.take i) calls).ret = none
  legal : ∀ i (inside : i < results.length), (results[i]).Legal (conn.writeCalls (results.take i) calls).conn
  finished : (conn.writeCalls results calls).ret ≠ none

/-- What a response consists of: the head at the start of the write buffer, and a file. -/
structure FileResponse where
  writeData : Bytes
  header : Nat
  addr : FileAddr
  size : Nat

def FileResponse.total (response : FileResponse) : Nat := response.header + response.size

def FileResponse.pointers (response : FileResponse) : List Pointer :=
  Region.pointers .writeData response.header ++ Region.pointers (.file response.addr) response.size

/-- The vector describes bytes among the first `size` of the region only. -/
def IoVec.Within (vector : IoVec) (region : Region) (size : Nat) : Prop :=
  vector.len = 0 ∨ vector.base.region = region ∧ 0 ≤ vector.base.offset ∧
    vector.base.offset + vector.len ≤ size

structure FileResponse.Sound (response : FileResponse) (conn : CHttp) : Prop where
  counted : conn.dataSendLen + conn.dataLen = response.total
  iv0 : conn.iv0.Within .writeData response.header
  iv1 : conn.iv1.Within (.file response.addr) response.size
  writeData : conn.writeData = response.writeData

/-- From `conn` on, exactly the bytes `pointers` of the response go out, and the state is
sound at every step. -/
structure FileResponse.Conveys (response : FileResponse) (conn : CHttp) (calls : Nat)
    (results : List WritevResult) (pointers : List Pointer) : Prop where
  sent : sentBytes (conn.writeCalls results calls).effects = pointers
  sound : ∀ i ≤ results.length, response.Sound (conn.writeCalls (results.take i) calls).conn

/-- The sizes of the writes among the results. -/
def writeCounts (results : List WritevResult) : List Nat :=
  (results.map fun result => result.ret.toNat).filter (· ≠ 0)

section Steps

variable {conn : CHttp} {results : List WritevResult}

theorem sentBytes_append (front back : List Effect) :
    sentBytes (front ++ back) = sentBytes front ++ sentBytes back := by
  simp [sentBytes]

@[simp] theorem sentBytes_send (bytes : List Pointer) (effects : List Effect) :
    sentBytes (.send bytes :: effects) = bytes ++ sentBytes effects := rfl

theorem CHttp.sentBytes_unmmap (conn : CHttp) : sentBytes conn.unmmap.2 = [] := by
  unfold unmmap
  split <;> rfl

theorem CHttp.write_waiting (waiting : conn.dataLen ≠ 0) : conn.write results = conn.writeLoop results := by
  rw [write, if_neg (by simpa using waiting)]

theorem CHttp.writeCalls_nil (waiting : conn.dataLen ≠ 0) (calls : Nat) :
    conn.writeCalls [] calls = ⟨conn, none, [], []⟩ := by
  cases calls <;> simp [writeCalls, write_waiting waiting, writeLoop]

theorem CHttp.writeCalls_eagain (waiting : conn.dataLen ≠ 0) (calls : Nat) :
    conn.writeCalls (⟨-1, .eagain⟩ :: results) (calls + 1) =
      { conn.writeCalls results calls with
        effects := [.send [], conn.modFd .epollOut] ++ (conn.writeCalls results calls).effects } := by
  have first : conn.write (⟨-1, .eagain⟩ :: results) =
      ⟨conn, some true, [.send [], conn.modFd .epollOut], results⟩ := by
    rw [write_waiting waiting]
    simp [writeLoop, int32_eq]
  simp only [writeCalls, first, waiting, ne_eq, not_false_eq_true, and_self, if_true]

/-- A short write: the loop goes on with the vectors that `advance` leaves. -/
theorem CHttp.writeCalls_short {count : Nat} (waiting : conn.dataLen ≠ 0) (fits : count < 2 ^ 31)
    (more : 0 < (conn.count count).dataLen) (errno : Errno) (calls : Nat) :
    conn.writeCalls (⟨count, errno⟩ :: results) calls =
      { (conn.count count).advance.writeCalls results calls with
        effects := .send (conn.offered.take count) ::
          ((conn.count count).advance.writeCalls results calls).effects } := by
  have kept : (conn.count count).advance.dataLen = (conn.count count).dataLen := by
    unfold advance
    split <;> rfl
  have first : conn.write (⟨count, errno⟩ :: results) =
      { (conn.count count).advance.write results with
        effects := .send (conn.offered.take count) :: ((conn.count count).advance.write results).effects } := by
    rw [write_waiting waiting, write_waiting (by rw [kept]; omega), writeLoop]
    have narrow : int32 (count : Int) = count := int32_eq (by omega) (by omega)
    simp only [narrow, Int.toNat_natCast]
    rw [if_neg (by omega), if_neg (by omega)]
  cases calls with
  | zero => simp only [writeCalls, first]
  | succ calls =>
    simp only [writeCalls, first]
    split <;> simp

/-- The write that leaves nothing to send. -/
theorem CHttp.writeCalls_last {count : Nat} (results : List WritevResult) (waiting : conn.dataLen ≠ 0)
    (fits : count < 2 ^ 31)
    (finished : (conn.count count).dataLen ≤ 0) (closes : conn.linger = false) (errno : Errno) (calls : Nat) :
    (conn.writeCalls (⟨count, errno⟩ :: results) calls).conn = (conn.count count).unmmap.1 ∧
      (conn.writeCalls (⟨count, errno⟩ :: results) calls).ret = some false ∧
      sentBytes (conn.writeCalls (⟨count, errno⟩ :: results) calls).effects = conn.offered.take count := by
  have narrow : int32 (count : Int) = count := int32_eq (by omega) (by omega)
  have lingers : (conn.count count).unmmap.1.linger = false := by
    unfold unmmap
    split <;> exact closes
  have quiet := (conn.count count).sentBytes_unmmap
  have first : conn.write (⟨count, errno⟩ :: results) =
      ⟨(conn.count count).unmmap.1, some false, .send (conn.offered.take count) ::
        ((conn.count count).unmmap.2 ++ [(conn.count count).unmmap.1.modFd .epollIn]), results⟩ := by
    rw [write_waiting waiting, writeLoop]
    simp only [narrow, Int.toNat_natCast]
    rw [if_neg (by omega), if_pos finished, lingers]
    simp
  have stopped : conn.writeCalls (⟨count, errno⟩ :: results) calls =
      conn.write (⟨count, errno⟩ :: results) := by
    cases calls <;> simp [writeCalls, first]
  rw [stopped, first]
  refine ⟨rfl, rfl, ?_⟩
  rw [sentBytes_send, sentBytes_append, quiet]
  exact List.append_nil _

/-- Given this result, `Write` has the effects and goes on from `next`, whatever follows. -/
def CHttp.Continues (conn : CHttp) (result : WritevResult) (calls : Nat) (effects : List Effect)
    (next : CHttp) (later : Nat) : Prop :=
  ∀ results, conn.writeCalls (result :: results) calls =
    { next.writeCalls results later with effects := effects ++ (next.writeCalls results later).effects }

theorem CHttp.Transmission.tail (run : conn.Transmission calls (result :: results))
    (continues : conn.Continues result calls effects next later) (enough : results.length ≤ later) :
    next.Transmission later results := by
  refine ⟨enough, ?_, ?_, ?_⟩
  · intro i inside
    have asked := run.asked (i + 1) (by simpa using inside)
    rw [List.take_succ_cons, continues] at asked
    exact asked
  · intro i inside
    have legal := run.legal (i + 1) (by simpa using inside)
    rw [List.take_succ_cons, continues] at legal
    simpa using legal
  · have finished := run.finished
    rw [continues] at finished
    exact finished

theorem FileResponse.conveys_cons {response : FileResponse} (waiting : conn.dataLen ≠ 0)
    (continues : conn.Continues result calls effects next later) :
    response.Conveys conn calls (result :: results) expected ↔
      response.Sound conn ∧ ∃ rest, expected = sentBytes effects ++ rest ∧
        response.Conveys next later results rest := by
  have start : (conn.writeCalls ((result :: results).take 0) calls).conn = conn := by
    rw [List.take_zero, CHttp.writeCalls_nil waiting]
  constructor
  · rintro ⟨sent, sound⟩
    refine ⟨start ▸ sound 0 (Nat.zero_le _), _, ?_, rfl, fun i inside => ?_⟩
    · rw [← sent, continues, sentBytes_append]
    · have here := sound (i + 1) (by simpa using inside)
      rw [List.take_succ_cons, continues] at here
      exact here
  · rintro ⟨here, rest, rfl, sent, sound⟩
    refine ⟨by rw [continues, sentBytes_append, sent], fun i inside => ?_⟩
    cases i with
    | zero => rwa [start]
    | succ i =>
      rw [List.take_succ_cons, continues]
      exact sound i (by simpa using inside)

theorem FileResponse.conveys_last {response : FileResponse} (waiting : conn.dataLen ≠ 0) {count : Nat}
    (fits : count < 2 ^ 31) (finished : (conn.count count).dataLen ≤ 0) (closes : conn.linger = false)
    (errno : Errno) (calls : Nat) :
    response.Conveys conn calls [⟨count, errno⟩] expected ↔
      response.Sound conn ∧ response.Sound (conn.count count).unmmap.1 ∧
        expected = conn.offered.take count := by
  obtain ⟨after, _, bytes⟩ := CHttp.writeCalls_last [] waiting fits finished closes errno calls
  have start : (conn.writeCalls ([⟨count, errno⟩].take 0) calls).conn = conn := by
    rw [List.take_zero, CHttp.writeCalls_nil waiting]
  constructor
  · rintro ⟨sent, sound⟩
    have here := sound 0 (Nat.zero_le _)
    have last := sound 1 (Nat.le_refl _)
    rw [start] at here
    rw [List.take_succ_cons, List.take_nil, after] at last
    exact ⟨here, last, by rw [← sent, bytes]⟩
  · rintro ⟨here, last, rfl⟩
    refine ⟨bytes, fun i inside => ?_⟩
    cases i with
    | zero => rwa [start]
    | succ i =>
      rw [List.take_succ_cons, List.take_nil, after]
      exact last

end Steps

end WSlyh.Http
