import WSlyh.Server.Registry
import WSlyh.Http.Response

/-! What `Read`, `Write` and `HttpParse` ask of the kernel, and what that does to the
descriptors: each of them leaves a connection armed, or up to its caller. -/

namespace WSlyh.Server

open Http

theorem CHttp.read_sockFd (conn : CHttp) (results : List RecvResult) : (conn.read results).1.sockFd = conn.sockFd := by
  have loop (conn : CHttp) : (conn.readLoop results).1.sockFd = conn.sockFd := by
    induction results generalizing conn with
    | nil => rfl
    | cons result results ih =>
      rw [CHttp.readLoop]
      split
      · rfl
      · rfl
      · rfl
      · exact ih _
  unfold CHttp.read
  split
  · rfl
  · split
    · exact loop conn
    · split
      · rfl
      · split <;> rfl

/-- How `Write` hands the descriptor on when it returns. -/
structure WriteHands (conn : CHttp) (run : WriteRun) : Prop where
  sockFd : run.conn.sockFd = conn.sockFd
  goesOn : run.ret = some true → ∀ r, ∃ event,
    run.effects.foldl Registry.perform r = r.modFd conn.sockFd event
  gives : run.ret = some false → ∀ r,
    run.effects.foldl Registry.perform r = r ∨ run.effects.foldl Registry.perform r = r.modFd conn.sockFd .epollIn

theorem foldl_unmmap (conn : CHttp) (r : Registry) : conn.unmmap.2.foldl Registry.perform r = r := by
  unfold CHttp.unmmap
  split <;> rfl

theorem unmmap_sockFd (conn : CHttp) : conn.unmmap.1.sockFd = conn.sockFd := by
  unfold CHttp.unmmap
  split <;> rfl

theorem advance_sockFd (conn : CHttp) : conn.advance.sockFd = conn.sockFd := by
  unfold CHttp.advance
  split <;> rfl

theorem writeLoop_hands (conn : CHttp) (results : List WritevResult) : WriteHands conn (conn.writeLoop results) := by
  induction results generalizing conn with
  | nil => exact ⟨rfl, nofun, nofun⟩
  | cons result results ih =>
    rw [CHttp.writeLoop]
    dsimp only
    split
    · split
      · exact ⟨rfl, fun _ r => ⟨.epollOut, rfl⟩, nofun⟩
      · refine ⟨unmmap_sockFd conn, nofun, fun _ r => .inl ?_⟩
        exact foldl_unmmap conn r
    · split
      · have last (r : Registry) :
            (Effect.send (conn.offered.take result.ret.toNat) :: (conn.count (Libc.int32 result.ret)).unmmap.2 ++
              [(conn.count (Libc.int32 result.ret)).unmmap.1.modFd .epollIn]).foldl Registry.perform r =
              r.modFd conn.sockFd .epollIn := by
          rw [List.cons_append, List.foldl_cons, List.foldl_append]
          change List.foldl _ (List.foldl _ r _) _ = _
          rw [foldl_unmmap, List.foldl_cons, List.foldl_nil, CHttp.modFd, Registry.perform, unmmap_sockFd]
          rfl
        split
        · exact ⟨unmmap_sockFd _, fun _ r => ⟨.epollIn, last r⟩, nofun⟩
        · exact ⟨unmmap_sockFd _, nofun, fun _ r => .inr (last r)⟩
      · have hands := ih (conn.count (Libc.int32 result.ret)).advance
        have sockFd : (conn.count (Libc.int32 result.ret)).advance.sockFd = conn.sockFd := advance_sockFd _
        refine ⟨hands.sockFd.trans sockFd, fun done r => ?_, fun done r => ?_⟩
        · rw [← sockFd]
          exact hands.goesOn done r
        · rw [← sockFd]
          exact hands.gives done r

theorem write_hands (conn : CHttp) (results : List WritevResult) : WriteHands conn (conn.write results) := by
  unfold CHttp.write
  split
  · exact ⟨rfl, fun _ r => ⟨.epollIn, rfl⟩, nofun⟩
  · exact writeLoop_hands conn results

theorem parseWrite_sockFd (conn : CHttp) (status : HttpRequestDecodeState) (answer : FileAnswer) :
    (conn.parseWrite status answer).1.sockFd = conn.sockFd := by
  cases reply : replyTo status answer with
  | error code title form =>
    obtain ⟨fileStat, _, written⟩ := CHttp.parseWrite_of_error conn reply
    obtain ⟨_, _, frame⟩ := ({ conn with fileStat } : CHttp).addError_outputs code title form
    rw [written, frame]
    rfl
  | file stat =>
    rw [CHttp.parseWrite_of_file reply, CHttp.offerFile]
    obtain ⟨_, _, frame⟩ := CHttp.addFileHeader_outputs
      { conn with fileStat := stat, fileAddr := answer.mmap stat.stSize } stat.stSize
    rw [frame]
    rfl

/-- A worker arms the descriptor again or closes it. -/
theorem httpParseTask_hands {conn : CHttp} (done : conn.httpParseTask answer = .ok (conn', effects)) :
    (∃ event, conn'.sockFd = conn.sockFd ∧ effects = [.modFd conn.sockFd event conn'.triggerMode]) ∨
      conn.sockFd = -1 ∧ effects = [] ∧ conn'.sockFd = -1 ∨
      conn.sockFd ≠ -1 ∧ effects = [.removeFd conn.sockFd, .httpCnt (-1)] := by
  rw [CHttp.httpParseTask] at done
  cases parsed : conn.parseRead answer.behind with
  | error exception =>
    rw [parsed] at done
    cases done
  | ok result =>
    obtain ⟨read, status⟩ := result
    obtain ⟨_, _, frame⟩ := CHttp.parseRead_frame parsed
    have sockFd : read.sockFd = conn.sockFd := by rw [frame]
    rw [parsed, Lib.ok_bind] at done
    dsimp only at done
    split at done
    · cases done
      exact .inl ⟨.epollIn, sockFd, by rw [CHttp.modFd, sockFd]⟩
    · have written := parseWrite_sockFd read status answer
      split at done
      · have closed := Except.ok.inj done
        rw [CHttp.closeHttp, written, sockFd] at closed
        split at closed
        · rename_i dead
          obtain ⟨rfl, rfl⟩ := Prod.ext_iff.mp closed
          exact .inr (.inl ⟨by simpa using dead, rfl, (written.trans sockFd).trans (by simpa using dead)⟩)
        · rename_i alive
          obtain ⟨_, rfl⟩ := Prod.ext_iff.mp closed
          exact .inr (.inr ⟨by simpa using alive, rfl⟩)
      · cases done
        exact .inl ⟨.epollOut, written.trans sockFd, by rw [CHttp.modFd, written, sockFd]⟩

end WSlyh.Server
