import WSlyh.Http.Transmission

/-! Whether the response that `ParseWrite` built is what `Write` sends. -/

namespace WSlyh.Http

open Libc

/-- The results of the `writev` calls of one `Write`, each of which accepts all it is offered. -/
structure CHttp.AcceptedAll (conn : CHttp) (results : List WritevResult) : Prop where
  asked : ∀ i < results.length, (conn.write (results.take i)).ret = none
  accepted : ∀ i (inside : i < results.length),
    (results[i]).ret = (conn.write (results.take i)).conn.offered.length
  finished : (conn.write results).ret ≠ none

def Reply.statusLine : Reply → Bytes
  | .error status title _ => Http.statusLine status title
  | .file _ => Http.statusLine 200 ok200Title

def Reply.body (file : Bytes) : Reply → Bytes
  | .error _ _ form => form
  | .file _ => file

/-- `Write` sends status line, headers and body, and the `Content-Length` that is printed in
the headers is the length of the body. -/
def CHttp.SendsWhole (conn : CHttp) (contents : FileAddr → Bytes) (results : List WritevResult)
    (reply : Reply) : Prop :=
  ∃ contentlen : Int,
    (sentBytes (conn.write results).effects).map (conn.load contents) =
      (reply.statusLine ++ headerLines false contentlen ++ reply.body (contents conn.fileAddr)).map some ∧
    contentlen = (reply.body (contents conn.fileAddr)).length

/-- Nothing is sent as long as no length is announced. -/
theorem CHttp.not_sends {conn : CHttp} (unannounced : conn.dataLen = 0) :
    ¬ conn.SendsWhole contents results reply := by
  rintro ⟨contentlen, sent, _⟩
  have none : conn.dataLen == 0 := by rw [unannounced]; rfl
  have nothing : sentBytes (conn.write results).effects = [] := by
    rw [write, if_pos none]
    rfl
  rw [nothing] at sent
  have lengths := congrArg List.length sent
  simp [headerLines] at lengths

theorem CHttp.Prepared.offered {conn : CHttp} (prepared : conn.Prepared header size) :
    conn.offered = Region.pointers .writeData header.length ++ Region.pointers (.file conn.fileAddr) size := by
  simp [CHttp.offered, prepared.ivCount, prepared.iv0, prepared.iv1, IoVec.pointers, Region.pointers]

/-- When `writev` takes everything, it is called once or not at all. -/
theorem CHttp.Prepared.sent {conn : CHttp} (prepared : conn.Prepared header size)
    (accepted : conn.AcceptedAll results) (waiting : conn.dataLen ≠ 0) :
    sentBytes (conn.write results).effects = conn.offered := by
  rw [write_waiting waiting]
  cases results with
  | nil => exact absurd (by rw [write_waiting waiting]; rfl) accepted.finished
  | cons result rest =>
    have all : result.ret = conn.offered.length := by
      have here := accepted.accepted 0 (Nat.succ_pos _)
      rwa [List.take_zero, write_waiting waiting] at here
    have total : (conn.offered.length : Int) = header.length + size := by
      rw [prepared.offered, List.length_append, Region.length_pointers, Region.length_pointers]
      omega
    -- The result is narrowed like the length that was announced, so the two cancel out.
    have done : (conn.count (int32 result.ret)).dataLen = 0 := by
      simp only [CHttp.count, prepared.dataLen, all, total, Int.sub_self]
      rfl
    have everything : conn.offered.take result.ret.toNat = conn.offered := by
      rw [all, Int.toNat_natCast, List.take_length]
    unfold writeLoop
    simp only [everything, done]
    split
    · split
      · simp [sentBytes, Effect.sent, modFd]
      · rw [sentBytes_send, sentBytes_unmmap, List.append_nil]
    · rw [if_pos (Int.le_refl 0)]
      split
      all_goals
        rw [List.cons_append, sentBytes_send, sentBytes_append, sentBytes_unmmap]
        exact List.append_nil _

theorem headerLines_injective (same : headerLines keepAlive first = headerLines keepAlive second) :
    first = second := by
  unfold headerLines at same
  have lengthLine := List.append_cancel_right (List.append_cancel_right (List.append_cancel_right same))
  exact intText_injective (List.append_cancel_left (List.append_cancel_right lengthLine))

/-- What a `Write` that is not refused anything hands to the socket, byte by byte. -/
theorem CHttp.Prepared.sent_bytes {conn : CHttp} (prepared : conn.Prepared header size)
    (accepted : conn.AcceptedAll results) (waiting : conn.dataLen ≠ 0)
    (mapped : (contents conn.fileAddr).length = size) :
    (sentBytes (conn.write results).effects).map (conn.load contents) =
      (header ++ contents conn.fileAddr).map some := by
  have room : header.length ≤ conn.writeData.length := by
    rw [prepared.buffer]
    exact prepared.short.le
  have head : conn.writeData.take header.length = header := by
    rw [← prepared.writeIdx]
    exact prepared.output
  have file : (contents conn.fileAddr).take size = contents conn.fileAddr := List.take_of_length_le mapped.le
  rw [prepared.sent accepted waiting, prepared.offered, List.map_append,
    conn.load_pointers contents .writeData room,
    conn.load_pointers contents (.file conn.fileAddr) mapped.ge, ← List.map_append]
  simp only [bytes, head, file]

theorem CHttp.Prepared.sends_iff {conn : CHttp} (prepared : conn.Prepared (fileHeader false stat.stSize) stat.stSize)
    (accepted : conn.AcceptedAll results) (mapped : (contents conn.fileAddr).length = stat.stSize) :
    conn.SendsWhole contents results (.file stat) ↔ stat.stSize < 2 ^ 31 := by
  have dataLen := prepared.dataLen
  by_cases waiting : conn.dataLen = 0
  · have head := length_fileHeader false stat.stSize
    have short : maxWriteDataBuffSize = 5120 := rfl
    have wrapped : (2 ^ 32 : Int) ∣ (fileHeader false stat.stSize).length + stat.stSize :=
      Int.dvd_of_bmod_eq_zero (dataLen.symm.trans waiting)
    exact iff_of_false (not_sends waiting) (by omega)
  · have bytes := prepared.sent_bytes accepted waiting mapped
    have fits := int32_eq_iff stat.stSize
    constructor
    · rintro ⟨contentlen, sent, number⟩
      rw [bytes] at sent
      have texts := List.map_injective_iff.mpr (Option.some_injective _) sent
      have heads := List.append_cancel_left (List.append_cancel_right texts)
      have printed : (stat.stSize : Int) = (contents conn.fileAddr).length := by rw [mapped]
      rw [Reply.body] at number
      rw [headerLines_injective heads, number, ← printed] at fits
      omega
    · intro small
      have printed : int32 stat.stSize = stat.stSize := fits.mpr (by omega)
      refine ⟨stat.stSize, ?_, by rw [Reply.body, mapped]⟩
      rw [bytes, fileHeader, printed]
      rfl

/-- After `ParseWrite`, the `Write` that `EPOLLOUT` triggers sends the whole response if and
only if a file is the answer and its size fits an `int`. -/
theorem CHttp.parseWrite_sends_iff {conn prepared : CHttp} (receiving : conn.Receiving)
    (made : conn.parseWrite status answer = (prepared, true)) (accepted : prepared.AcceptedAll results)
    (mapped : ∀ stat, replyTo status answer = .file stat → (contents prepared.fileAddr).length = stat.stSize) :
    prepared.SendsWhole contents results (replyTo status answer) ↔
      ∃ stat, replyTo status answer = .file stat ∧ stat.stSize < 2 ^ 31 := by
  cases reply : replyTo status answer with
  | error code title form =>
    have answered := (parseWrite_error receiving.idle reply).2
    rw [made] at answered
    refine iff_of_false (not_sends answered.dataLen) ?_
    rintro ⟨_, same, _⟩
    cases same
  | file stat =>
    have shape := (parseWrite_file receiving.idle reply).2
    rw [made] at shape
    rw [shape.sends_iff accepted (mapped stat reply)]
    constructor
    · intro small
      exact ⟨stat, rfl, small⟩
    · rintro ⟨_, same, small⟩
      cases same
      exact small

theorem hundredBytes_sent :
    hundredBytesPrepared.1.SendsWhole (fun _ => List.replicate 100 65) [⟨181, .eagain⟩]
        (replyTo .complete hundredBytes) ↔
      ∃ stat, replyTo .complete hundredBytes = .file stat ∧ stat.stSize < 2 ^ 31 := by
  have receiving : ((default : CHttp).init 5 1).1.Receiving := .init default 5 1
  have reply : replyTo .complete hundredBytes = .file ⟨100, 0o100644⟩ := by decide
  have made : ((default : CHttp).init 5 1).1.parseWrite .complete hundredBytes = (hundredBytesPrepared.1, true) :=
    Prod.ext rfl (CHttp.parseWrite_file receiving.idle reply).1
  have accepted : hundredBytesPrepared.1.AcceptedAll [⟨181, .eagain⟩] :=
    ⟨by decide +kernel, by decide +kernel, by decide +kernel⟩
  refine CHttp.parseWrite_sends_iff receiving made accepted fun stat same => ?_
  rw [reply] at same
  cases same
  exact List.length_replicate

/-- The answer to a request with bad syntax, prepared on a new connection. -/
def badRequestPrepared : CHttp × Bool := ((default : CHttp).init 5 1).1.parseWrite .invalid hundredBytes

/-- The error text never leaves the write buffer. -/
theorem badRequest_not_sent :
    ((default : CHttp).init 5 1).1.Receiving ∧
    ((default : CHttp).init 5 1).1.parseWrite .invalid hundredBytes = (badRequestPrepared.1, true) ∧
    badRequestPrepared.1.AcceptedAll [] ∧
    replyTo .invalid hundredBytes = .error 400 error400Title error400Form ∧
    ¬ badRequestPrepared.1.SendsWhole (fun _ => []) [] (replyTo .invalid hundredBytes) := by
  have receiving : ((default : CHttp).init 5 1).1.Receiving := .init default 5 1
  have reply : replyTo .invalid hundredBytes = .error 400 error400Title error400Form := rfl
  obtain ⟨done, answered⟩ := CHttp.parseWrite_error receiving.idle reply
  have none : badRequestPrepared.1.dataLen == 0 := by rw [badRequestPrepared, answered.dataLen]; rfl
  have accepted : badRequestPrepared.1.AcceptedAll [] := by
    refine ⟨fun i inside => absurd inside (Nat.not_lt_zero i), fun i inside => absurd inside (Nat.not_lt_zero i), ?_⟩
    rw [CHttp.write, if_pos none]
    exact Option.some_ne_none true
  exact ⟨receiving, Prod.ext rfl done, accepted, reply, CHttp.not_sends answered.dataLen⟩

end WSlyh.Http
