import WSlyh.Http.Response

/-! `Read` in its two trigger modes, on a socket in which some chunks wait. -/

namespace WSlyh.Http

open Libc

/-- The bytes read so far. -/
def CHttp.input (conn : CHttp) : Bytes := conn.readData.take conn.readIdx

def CHttp.withTrigger (conn : CHttp) (triggerMode : Int) : CHttp := { conn with triggerMode }

/-- What `recv` returns, call by call, until the socket is drained. -/
def waiting (chunks : List Bytes) : List RecvResult := chunks.map .received ++ [.error .eagain]

/-- One `Read` for each chunk, as long as they succeed. -/
def CHttp.readEach (conn : CHttp) : List Bytes → CHttp × Option Bool
  | [] => (conn, some true)
  | chunk :: chunks =>
    match conn.read [.received chunk] with
    | (conn, some true) => conn.readEach chunks
    | failed => failed

/-- The bytes are behind those that were read before, and nothing has failed. -/
structure CHttp.Took (conn : CHttp) (bytes : Bytes) (outcome : CHttp × Option Bool) : Prop where
  returned : outcome.2 = some true
  readIdx : outcome.1.readIdx = conn.readIdx + bytes.length
  input : outcome.1.input = conn.input ++ bytes

/-- Both modes take the chunks, and neither passes the end of the buffer or loses what it has, whatever `recv`
returns. -/
structure CHttp.ReadsAlike (conn : CHttp) (chunks : List Bytes) : Prop where
  edge : ∀ mode ≠ 0, conn.Took chunks.flatten ((conn.withTrigger mode).read (waiting chunks))
  level : conn.Took chunks.flatten ((conn.withTrigger 0).readEach chunks)
  bounded : ∀ mode results, ((conn.withTrigger mode).read results).1.readIdx ≤ maxReadDataBuffSize
  kept : ∀ mode results, ((conn.withTrigger mode).read results).1.readData.take conn.readIdx = conn.input

namespace CHttp

variable {conn : CHttp} {bytes more : Bytes} {chunks : List Bytes} {results : List RecvResult}

/-- The fill level of the buffer, which has its size throughout. -/
structure Fits (conn : CHttp) : Prop where
  buffer : conn.readData.length = maxReadDataBuffSize
  readIdx : conn.readIdx ≤ maxReadDataBuffSize

theorem Fits.receive (fits : conn.Fits) (room : conn.readIdx + bytes.length ≤ maxReadDataBuffSize) :
    (conn.receive bytes).Fits := by
  refine ⟨?_, room⟩
  rw [← fits.buffer]
  apply length_overwrite
  rw [fits.buffer]
  exact room

/-- Bytes that are received leave those before them as they are. -/
theorem Fits.take_receive (fits : conn.Fits) (bytes : Bytes) {len : Nat} (before : len ≤ conn.readIdx) :
    (conn.receive bytes).readData.take len = conn.readData.take len := by
  have front : (conn.readData.take conn.readIdx).length = conn.readIdx := by
    rw [List.length_take, fits.buffer, Nat.min_eq_left fits.readIdx]
  have inFront : len ≤ (conn.readData.take conn.readIdx).length := before.trans_eq front.symm
  rw [CHttp.receive, overwrite, List.append_assoc, List.take_append_of_le_length inFront, List.take_take,
    Nat.min_eq_left before]

theorem Fits.input_receive (fits : conn.Fits) (bytes : Bytes) : (conn.receive bytes).input = conn.input ++ bytes := by
  have front : (conn.readData.take conn.readIdx ++ bytes).length = conn.readIdx + bytes.length := by
    rw [List.length_append, List.length_take, fits.buffer, Nat.min_eq_left fits.readIdx]
  have next : (conn.receive bytes).readIdx = (conn.readData.take conn.readIdx ++ bytes).length := front.symm
  rw [input, next]
  exact List.take_left

/-- A chunk for which there is room is handed over as it is. -/
theorem recv_chunk (room : conn.readIdx + bytes.length ≤ maxReadDataBuffSize) :
    conn.recv (.received bytes) = .received bytes := by
  have whole : bytes.take (maxReadDataBuffSize - conn.readIdx) = bytes := List.take_of_length_le (by omega)
  rw [recv, whole]

theorem readLoop_chunk (some_ : bytes ≠ []) (room : conn.readIdx + bytes.length ≤ maxReadDataBuffSize) :
    conn.readLoop (.received bytes :: results) = (conn.receive bytes).readLoop results := by
  obtain ⟨first, more, rfl⟩ := List.exists_cons_of_ne_nil some_
  rw [readLoop, recv_chunk room]

/-- A chunk, and then the others. -/
theorem Fits.took (fits : conn.Fits) (took : (conn.receive bytes).Took more outcome) :
    conn.Took (bytes ++ more) outcome := by
  refine ⟨took.returned, ?_, ?_⟩
  · rw [took.readIdx, List.length_append, ← Nat.add_assoc]
    rfl
  · rw [took.input, fits.input_receive, List.append_assoc]

theorem took_nil (conn : CHttp) : conn.Took [] (conn, some true) := ⟨rfl, rfl, (List.append_nil _).symm⟩

/-- The loop goes on behind the chunks with an object that has taken them all. -/
theorem Fits.readLoop_chunks (fits : conn.Fits) (nonempty : ∀ chunk ∈ chunks, chunk ≠ [])
    (room : conn.readIdx + chunks.flatten.length ≤ maxReadDataBuffSize) (rest : List RecvResult) :
    ∃ conn', conn.readLoop (chunks.map .received ++ rest) = conn'.readLoop rest ∧
      conn.Took chunks.flatten (conn', some true) := by
  induction chunks generalizing conn with
  | nil => exact ⟨conn, rfl, took_nil conn⟩
  | cons chunk chunks ih =>
    rw [List.flatten_cons, List.length_append, ← Nat.add_assoc] at room
    have first : conn.readIdx + chunk.length ≤ maxReadDataBuffSize := (Nat.le_add_right ..).trans room
    obtain ⟨conn', loop, took⟩ :=
      ih (fits.receive first) (fun other member => nonempty other (List.mem_cons_of_mem _ member)) room
    refine ⟨conn', ?_, fits.took took⟩
    rw [List.map_cons, List.cons_append, readLoop_chunk (nonempty chunk List.mem_cons_self) first]
    exact loop

theorem read_edge {mode : Int} (edge : mode ≠ 0) (room : conn.readIdx < maxReadDataBuffSize)
    (results : List RecvResult) :
    (conn.withTrigger mode).read results = (conn.withTrigger mode).readLoop results := by
  have notFull : ¬ (conn.withTrigger mode).readIdx ≥ maxReadDataBuffSize := Nat.not_le_of_gt room
  unfold CHttp.read
  rw [if_neg notFull]
  exact if_pos edge

/-- The edge-triggered `Read` takes the chunks, and ends where the socket is drained. -/
theorem Fits.read_waiting (fits : conn.Fits) (mode : Int) (edge : mode ≠ 0)
    (below : conn.readIdx < maxReadDataBuffSize)
    (nonempty : ∀ chunk ∈ chunks, chunk ≠ []) (room : conn.readIdx + chunks.flatten.length ≤ maxReadDataBuffSize) :
    conn.Took chunks.flatten ((conn.withTrigger mode).read (waiting chunks)) := by
  have armed : (conn.withTrigger mode).Fits := ⟨fits.buffer, fits.readIdx⟩
  obtain ⟨conn', loop, took⟩ := armed.readLoop_chunks nonempty room [.error .eagain]
  have drained : conn'.readLoop [.error .eagain] = (conn', some true) := rfl
  rw [read_edge edge below, waiting, loop, drained]
  exact ⟨took.returned, took.readIdx, took.input⟩

theorem read_level (level : conn.triggerMode = 0) (some_ : bytes ≠ [])
    (room : conn.readIdx + bytes.length ≤ maxReadDataBuffSize) :
    conn.read [.received bytes] = (conn.receive bytes, some true) := by
  have positive := List.length_pos_of_ne_nil some_
  have notFull : ¬ conn.readIdx ≥ maxReadDataBuffSize := by omega
  have notEdge : ¬ conn.triggerMode ≠ 0 := not_not.mpr level
  obtain ⟨first, more, rfl⟩ := List.exists_cons_of_ne_nil some_
  simp only [CHttp.read, if_neg notFull, if_neg notEdge, recv_chunk room]

/-- The level-triggered `Read`s take the chunks, and all of them succeed. -/
theorem Fits.readEach_chunks (fits : conn.Fits) (level : conn.triggerMode = 0)
    (nonempty : ∀ chunk ∈ chunks, chunk ≠ [])
    (room : conn.readIdx + chunks.flatten.length ≤ maxReadDataBuffSize) :
    conn.Took chunks.flatten (conn.readEach chunks) := by
  induction chunks generalizing conn with
  | nil => exact took_nil conn
  | cons chunk chunks ih =>
    rw [List.flatten_cons, List.length_append, ← Nat.add_assoc] at room
    have first : conn.readIdx + chunk.length ≤ maxReadDataBuffSize := (Nat.le_add_right ..).trans room
    have onward : (conn.receive chunk).Took chunks.flatten ((conn.receive chunk).readEach chunks) :=
      ih (fits.receive first) level (fun other member => nonempty other (List.mem_cons_of_mem _ member)) room
    rw [readEach, read_level level (nonempty chunk List.mem_cons_self) first]
    exact fits.took onward

/-- What `recv` hands over fits, whatever waits in the socket. -/
theorem recv_fits (fits : conn.Fits) (received : conn.recv result = .received bytes) :
    conn.readIdx + bytes.length ≤ maxReadDataBuffSize := by
  have below := fits.readIdx
  cases result with
  | error errno => cases received
  | received all =>
    cases received
    rw [List.length_take]
    omega

/-- What stays as it was: the bytes read before, and the size of the buffer. -/
structure Keeps (conn conn' : CHttp) : Prop where
  fits : conn'.Fits
  grows : conn.readIdx ≤ conn'.readIdx
  input : conn'.readData.take conn.readIdx = conn.input

theorem Fits.keeps_receive (fits : conn.Fits) (room : conn.readIdx + bytes.length ≤ maxReadDataBuffSize) :
    conn.Keeps (conn.receive bytes) :=
  ⟨fits.receive room, Nat.le_add_right .., fits.take_receive bytes le_rfl⟩

theorem Keeps.trans (first : conn.Keeps conn₁) (second : conn₁.Keeps conn₂) : conn.Keeps conn₂ := by
  refine ⟨second.fits, first.grows.trans second.grows, ?_⟩
  have later := congrArg (List.take conn.readIdx) second.input
  rw [CHttp.input, List.take_take, List.take_take, Nat.min_eq_left first.grows] at later
  exact later.trans first.input

theorem Fits.readLoop_keeps (fits : conn.Fits) (results : List RecvResult) : conn.Keeps (conn.readLoop results).1 := by
  have same : conn.Keeps conn := ⟨fits, le_rfl, rfl⟩
  induction results generalizing conn with
  | nil => exact same
  | cons result results ih =>
    rw [readLoop]
    split
    · exact same
    · exact same
    · exact same
    · rename_i received
      have step := fits.keeps_receive (recv_fits fits received)
      exact step.trans (ih step.fits ⟨step.fits, le_rfl, rfl⟩)

theorem Fits.read_keeps (fits : conn.Fits) (results : List RecvResult) : conn.Keeps (conn.read results).1 := by
  have same : conn.Keeps conn := ⟨fits, le_rfl, rfl⟩
  unfold CHttp.read
  split
  · exact same
  · split
    · exact fits.readLoop_keeps results
    · cases results with
      | nil => exact same
      | cons result results =>
        dsimp only
        split
        · exact same
        · exact same
        · rename_i received
          exact fits.keeps_receive (recv_fits fits received)

end CHttp

/-- Where the chunks fit into the buffer, the two modes agree on them, also when they just fill it. -/
theorem readsAlike_of_room {conn : CHttp} {chunks : List Bytes} (buffer : conn.readData.length = maxReadDataBuffSize)
    (below : conn.readIdx < maxReadDataBuffSize) (nonempty : ∀ chunk ∈ chunks, chunk ≠ [])
    (room : conn.readIdx + chunks.flatten.length ≤ maxReadDataBuffSize) : conn.ReadsAlike chunks := by
  have fits : conn.Fits := ⟨buffer, below.le⟩
  refine ⟨fun mode edge => fits.read_waiting mode edge below nonempty room, ?_, fun mode results => ?_,
    fun mode results => ?_⟩
  · have level : (conn.withTrigger 0).Fits := ⟨buffer, below.le⟩
    have took := level.readEach_chunks rfl nonempty room
    exact ⟨took.returned, took.readIdx, took.input⟩
  · have armed : (conn.withTrigger mode).Fits := ⟨buffer, below.le⟩
    exact (armed.read_keeps results).fits.readIdx
  · have armed : (conn.withTrigger mode).Fits := ⟨buffer, below.le⟩
    exact (armed.read_keeps results).input

/-- A connection that has just been accepted. -/
def newConnection : CHttp := ((default : CHttp).init 10 0).1

/-- Chunks that just fill the buffer. -/
theorem fullBuffer_alike : newConnection.ReadsAlike [ascii "GE", List.replicate (maxReadDataBuffSize - 2) 84] := by
  have full : [ascii "GE", List.replicate (maxReadDataBuffSize - 2) (84 : UInt8)].flatten.length =
    maxReadDataBuffSize := by
    simp only [List.flatten_cons, List.flatten_nil, List.length_append, List.length_replicate]
    rfl
  refine readsAlike_of_room List.length_replicate (by decide) ?_ ?_
  · intro chunk member
    rcases List.mem_cons.mp member with rfl | second
    · decide
    · rw [List.mem_singleton.mp second]
      exact List.cons_ne_nil _ _
  · rw [full]
    exact le_rfl

end WSlyh.Http
