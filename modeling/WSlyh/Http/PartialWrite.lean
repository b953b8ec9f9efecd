import WSlyh.Http.Transmission

/-! Which transmissions of a file response are exact: the vectors stay aligned with the
bytes that are out unless two writes end inside the head. -/

namespace WSlyh.Http

open Libc

namespace FileResponse

variable {response : FileResponse} {conn : CHttp} {s calls : Nat}

/-- The counters when `s` bytes are out and more are to follow. -/
structure Carried (response : FileResponse) (conn : CHttp) (s : Nat) : Prop where
  total : response.total < 2 ^ 31
  left : s < response.total
  dataSendLen : conn.dataSendLen = s
  dataLen : conn.dataLen = response.total - s
  writeIdx : conn.writeIdx = response.header
  writeData : conn.writeData = response.writeData
  fileAddr : conn.fileAddr = response.addr
  ivCount : conn.ivCount = 2
  linger : conn.linger = false

/-- The vectors describe the bytes of the response from the `s`-th on. -/
structure Aligned (response : FileResponse) (conn : CHttp) (s : Nat) : Prop where
  carried : response.Carried conn s
  head : s < response.header → conn.iv0 = ⟨⟨.writeData, s⟩, response.header - s⟩ ∧
    conn.iv1 = ⟨⟨.file response.addr, 0⟩, response.size⟩
  body : response.header ≤ s → conn.iv0.len = 0 ∧
    conn.iv1 = ⟨⟨.file response.addr, (s - response.header : Nat)⟩, response.total - s⟩

/-- The first vector has lost bytes of the head. -/
structure Lagging (response : FileResponse) (conn : CHttp) (s : Nat) : Prop where
  carried : response.Carried conn s
  pending : ∃ left, 0 < left ∧ s + left < response.header ∧ conn.iv0 = ⟨⟨.writeData, s⟩, left⟩ ∧
    conn.iv1 = ⟨⟨.file response.addr, 0⟩, response.size⟩

theorem Carried.waiting (carried : response.Carried conn s) : conn.dataLen ≠ 0 := by
  have := carried.dataLen
  have := carried.left
  omega

theorem Carried.count_dataSendLen (carried : response.Carried conn s) (count : Nat) (fits : s + count < 2 ^ 31) :
    (conn.count count).dataSendLen = (s + count : Nat) := by
  simp only [CHttp.count, carried.dataSendLen]
  rw [int32_eq] <;> omega

theorem Carried.count_dataLen (carried : response.Carried conn s) (count : Nat) (fits : s + count < 2 ^ 31) :
    (conn.count count).dataLen = response.total - (s + count : Nat) := by
  have := carried.total
  simp only [CHttp.count, carried.dataLen]
  rw [int32_eq] <;> omega

theorem Carried.advance {count : Nat} (carried : response.Carried conn s) (more : s + count < response.total) :
    response.Carried (conn.count count).advance (s + count) := by
  have sendLen := carried.count_dataSendLen count (by have := carried.total; omega)
  have dataLen := carried.count_dataLen count (by have := carried.total; omega)
  unfold CHttp.advance
  split
  all_goals exact ⟨carried.total, more, sendLen, dataLen, carried.writeIdx, carried.writeData,
    carried.fileAddr, carried.ivCount, carried.linger⟩

/-- The counters reach the end of the first vector: it is dropped. -/
theorem Carried.advance_past {count : Nat} (carried : response.Carried conn s)
    (more : s + count < response.total) (past : conn.iv0.len ≤ s + count) :
    (conn.count count).advance.iv0.len = 0 ∧ (conn.count count).advance.iv1 =
      ⟨⟨.file response.addr, (s + count : Nat) - response.header⟩, response.total - (s + count)⟩ := by
  have total := carried.total
  have sendLen := carried.count_dataSendLen count (by omega)
  have dataLen := carried.count_dataLen count (by omega)
  have sentSize := sizeT_eq ((conn.count count).dataSendLen) (by omega) (by omega)
  have leftSize := sizeT_eq ((conn.count count).dataLen) (by omega) (by omega)
  have addr : (conn.count count).fileAddr = response.addr := carried.fileAddr
  have writeIdx : (conn.count count).writeIdx = response.header := carried.writeIdx
  have same : (conn.count count).iv0 = conn.iv0 := rfl
  have left : sizeT (conn.count count).dataLen = response.total - (s + count) := by omega
  rw [CHttp.advance, if_pos (by rw [same]; omega)]
  exact ⟨rfl, by simp only [addr, writeIdx, sendLen, left]⟩

/-- Otherwise the first vector is shortened by all that is out, not by what went out last. -/
theorem Carried.advance_inside {count : Nat} (carried : response.Carried conn s)
    (more : s + count < response.total) (inside : s + count < conn.iv0.len) (small : conn.iv0.len < 2 ^ 31) :
    (conn.count count).advance.iv0 = ⟨⟨.writeData, (s + count : Nat)⟩, conn.iv0.len - (s + count)⟩ ∧
      (conn.count count).advance.iv1 = conn.iv1 := by
  have total := carried.total
  have sendLen := carried.count_dataSendLen count (by omega)
  have sentSize := sizeT_eq ((conn.count count).dataSendLen) (by omega) (by omega)
  have same : (conn.count count).iv0 = conn.iv0 := rfl
  have rest := sizeT_eq (conn.iv0.len - (conn.count count).dataSendLen) (by omega) (by omega)
  have left : sizeT (conn.iv0.len - (s + count : Nat)) = conn.iv0.len - (s + count) := by
    rw [← sendLen]
    omega
  rw [CHttp.advance, if_neg (by rw [same]; omega)]
  exact ⟨by simp only [same, left, sendLen], rfl⟩

theorem Aligned.within (aligned : response.Aligned conn s) : response.Sound conn := by
  have left := aligned.carried.left
  have dataLen := aligned.carried.dataLen
  have sendLen := aligned.carried.dataSendLen
  have total : response.total = response.header + response.size := rfl
  refine ⟨by omega, ?_, ?_, aligned.carried.writeData⟩
  · by_cases inside : s < response.header
    · obtain ⟨iv0, _⟩ := aligned.head inside
      rw [iv0]
      exact .inr ⟨rfl, by simp only; omega, by simp only; omega⟩
    · exact .inl (aligned.body (by omega)).1
  · by_cases inside : s < response.header
    · obtain ⟨_, iv1⟩ := aligned.head inside
      rw [iv1]
      exact .inr ⟨rfl, by simp only; omega, by simp only; omega⟩
    · obtain ⟨_, iv1⟩ := aligned.body (by omega)
      rw [iv1]
      exact .inr ⟨rfl, by simp only; omega, by simp only; omega⟩

theorem pointers_eq_drop (region : Region) (s size : Nat) :
    (IoVec.mk ⟨region, s⟩ (size - s)).pointers = (region.pointers size).drop s := by
  apply List.ext_getElem
  · simp [IoVec.pointers, Region.pointers]
  · intro i _ _
    simp only [IoVec.pointers, Region.pointers, List.getElem_drop, List.getElem_map, List.getElem_range,
      Int.natCast_add]

theorem Aligned.offered (aligned : response.Aligned conn s) : conn.offered = response.pointers.drop s := by
  have total : response.total = response.header + response.size := rfl
  have left := aligned.carried.left
  have both : conn.offered = conn.iv0.pointers ++ conn.iv1.pointers := by
    simp [CHttp.offered, aligned.carried.ivCount]
  rw [both, pointers, List.drop_append, Region.length_pointers]
  by_cases inside : s < response.header
  · obtain ⟨iv0, iv1⟩ := aligned.head inside
    have file := pointers_eq_drop (.file response.addr) 0 response.size
    rw [iv0, iv1, pointers_eq_drop, Nat.sub_eq_zero_of_le (by omega : s ≤ response.header)]
    exact congrArg _ file
  · obtain ⟨iv0, iv1⟩ := aligned.body (by omega)
    have file := pointers_eq_drop (.file response.addr) (s - response.header) response.size
    have rest : response.total - s = response.size - (s - response.header) := by omega
    have none : conn.iv0.pointers = [] := by simp [IoVec.pointers, iv0]
    have gone : (Region.writeData.pointers response.header).drop s = [] :=
      List.drop_eq_nil_of_le (by rw [Region.length_pointers]; omega)
    rw [none, iv1, rest, file, gone]

/-- The three things that can happen next in a transmission. -/
theorem Carried.next (carried : response.Carried conn s) (run : conn.Transmission calls results)
    (offered : s + (conn.iv0.len + conn.iv1.len) ≤ response.total) :
    (∃ rest later, results = ⟨-1, .eagain⟩ :: rest ∧ conn.Transmission later rest ∧
      ∀ pointers, response.Conveys conn calls results pointers ↔
        response.Sound conn ∧ response.Conveys conn later rest pointers) ∨
    (∃ (count : Nat) (errno : Errno) (rest : List WritevResult), results = ⟨count, errno⟩ :: rest ∧ 1 ≤ count ∧
      count ≤ conn.iv0.len + conn.iv1.len ∧ s + count < response.total ∧
      (conn.count count).advance.Transmission calls rest ∧
      ∀ pointers, response.Conveys conn calls results pointers ↔
        response.Sound conn ∧ ∃ tail, pointers = conn.offered.take count ++ tail ∧
          response.Conveys (conn.count count).advance calls rest tail) ∨
    (∃ (count : Nat) (errno : Errno), results = [⟨count, errno⟩] ∧ s + count = response.total ∧
      count = conn.iv0.len + conn.iv1.len ∧
      ∀ pointers, response.Conveys conn calls results pointers ↔
        response.Sound conn ∧ response.Sound (conn.count count).unmmap.1 ∧
          pointers = conn.offered.take count) := by
  have total := carried.total
  have waiting := carried.waiting
  cases results with
  | nil => exact absurd (by rw [CHttp.writeCalls_nil waiting]) run.finished
  | cons result rest =>
    have enough := run.enough
    rw [List.length_cons] at enough
    have legal := run.legal 0 (by simp)
    rw [List.take_zero, CHttp.writeCalls_nil waiting] at legal
    rcases legal with eagain | ⟨low, high⟩
    · obtain ⟨later, rfl⟩ : ∃ later, calls = later + 1 := ⟨calls - 1, by omega⟩
      rw [List.getElem_cons_zero] at eagain
      subst eagain
      have continues : conn.Continues ⟨-1, .eagain⟩ (later + 1) [.send [], conn.modFd .epollOut] conn later :=
        fun results => CHttp.writeCalls_eagain waiting later
      refine .inl ⟨rest, later, rfl, run.tail continues (by omega), fun pointers => ?_⟩
      rw [conveys_cons waiting continues]
      simp [sentBytes, Effect.sent, CHttp.modFd]
    · obtain ⟨ret, errno⟩ := result
      simp only [List.getElem_cons_zero] at low high
      obtain ⟨count, rfl⟩ := Int.eq_ofNat_of_zero_le (by omega : 0 ≤ ret)
      have dataLen := carried.count_dataLen count (by omega)
      by_cases more : s + count < response.total
      · have continues : conn.Continues ⟨count, errno⟩ calls [.send (conn.offered.take count)]
            (conn.count count).advance calls :=
          fun results => CHttp.writeCalls_short waiting (by omega) (by omega) errno calls
        refine .inr (.inl ⟨count, errno, rest, rfl, by omega, by omega, more,
          run.tail continues (by omega), fun pointers => ?_⟩)
        rw [conveys_cons waiting continues]
        simp [sentBytes, Effect.sent]
      · have last := carried.dataLen
        have finished : (conn.count count).dataLen ≤ 0 := by omega
        cases rest with
        | nil =>
          exact .inr (.inr ⟨count, errno, rfl, by omega, by omega, fun pointers =>
            conveys_last waiting (by omega) finished carried.linger errno calls⟩)
        | cons second rest =>
          have stopped := (CHttp.writeCalls_last [] waiting (by omega) finished carried.linger
            errno calls).2.1
          have asked := run.asked 1 (by simp)
          rw [List.take_succ_cons, List.take_zero, stopped] at asked
          cases asked

theorem Carried.finished_sound {count : Nat} (carried : response.Carried conn s)
    (all : s + count = response.total) (sound : response.Sound conn) :
    response.Sound (conn.count count).unmmap.1 := by
  have total := carried.total
  have sendLen := carried.count_dataSendLen count (by omega)
  have dataLen := carried.count_dataLen count (by omega)
  have counted : (conn.count count).dataSendLen + (conn.count count).dataLen = response.total := by omega
  unfold CHttp.unmmap
  split
  all_goals exact ⟨counted, sound.iv0, sound.iv1, sound.writeData⟩

theorem Aligned.offered_len (aligned : response.Aligned conn s) :
    s + (conn.iv0.len + conn.iv1.len) = response.total := by
  have total : response.total = response.header + response.size := rfl
  have left := aligned.carried.left
  by_cases inside : s < response.header
  · obtain ⟨iv0, iv1⟩ := aligned.head inside
    rw [iv0, iv1]
    simp only
    omega
  · obtain ⟨iv0, iv1⟩ := aligned.body (by omega)
    rw [iv0, iv1]
    simp only
    omega

/-- A short write keeps the vectors aligned unless it is a second one inside the head. -/
theorem Aligned.advance {count : Nat} (aligned : response.Aligned conn s) (more : s + count < response.total)
    (single : s = 0 ∨ response.header ≤ s + count) :
    response.Aligned (conn.count count).advance (s + count) := by
  refine ⟨aligned.carried.advance more, fun inside => ?_, fun past => ?_⟩
  · have start : s = 0 := by omega
    subst start
    have total : response.total = response.header + response.size := rfl
    have bound := aligned.carried.total
    obtain ⟨iv0, iv1⟩ := aligned.head (by omega)
    have first : conn.iv0.len = response.header := by rw [iv0]; rfl
    have next := aligned.carried.advance_inside more (by omega) (by omega)
    rw [first, iv1] at next
    exact next
  · have reached : conn.iv0.len ≤ s + count := by
      by_cases inside : s < response.header
      · rw [(aligned.head inside).1]
        simp only
        omega
      · rw [(aligned.body (by omega)).1]
        omega
    have next := aligned.carried.advance_past more reached
    rw [show ((s + count : Nat) - response.header : Int) = (s + count - response.header : Nat) by omega] at next
    exact next

theorem length_pointers (response : FileResponse) : response.pointers.length = response.total := by
  rw [pointers, List.length_append, Region.length_pointers, Region.length_pointers, total]

theorem drop_split (list : List α) (s count : Nat) :
    list.drop s = (list.drop s).take count ++ list.drop (s + count) := by
  rw [← List.drop_drop, List.take_append_drop]

/-- The three things that can happen next while the vectors are aligned. -/
theorem Aligned.next (aligned : response.Aligned conn s) (run : conn.Transmission calls results) :
    (∃ rest later, results = ⟨-1, .eagain⟩ :: rest ∧ conn.Transmission later rest ∧
      (response.Conveys conn calls results (response.pointers.drop s) ↔
        response.Conveys conn later rest (response.pointers.drop s))) ∨
    (∃ (count : Nat) (errno : Errno) (rest : List WritevResult), results = ⟨count, errno⟩ :: rest ∧ 1 ≤ count ∧
      s + count < response.total ∧ (conn.count count).advance.Transmission calls rest ∧
      (response.Conveys conn calls results (response.pointers.drop s) ↔
        response.Conveys (conn.count count).advance calls rest (response.pointers.drop (s + count)))) ∨
    (∃ (count : Nat) (errno : Errno), results = [⟨count, errno⟩] ∧ 1 ≤ count ∧ s + count = response.total ∧
      response.Conveys conn calls results (response.pointers.drop s)) := by
  have sound := aligned.within
  rcases aligned.carried.next run aligned.offered_len.le with ⟨rest, later, same, tail, conveys⟩ |
    ⟨count, errno, rest, same, positive, _, more, tail, conveys⟩ | ⟨count, errno, same, all, _, conveys⟩
  · refine .inl ⟨rest, later, same, tail, ?_⟩
    rw [conveys, and_iff_right sound]
  · refine .inr (.inl ⟨count, errno, rest, same, positive, more, tail, ?_⟩)
    rw [conveys, and_iff_right sound, aligned.offered]
    constructor
    · rintro ⟨others, split, conveyed⟩
      rwa [List.append_cancel_left (split.symm.trans (drop_split _ s count))] at conveyed
    · intro conveyed
      exact ⟨_, drop_split _ s count, conveyed⟩
  · have left := aligned.carried.left
    refine .inr (.inr ⟨count, errno, same, by omega, all, ?_⟩)
    refine (conveys _).mpr ⟨sound, aligned.carried.finished_sound all sound, ?_⟩
    rw [aligned.offered, List.take_of_length_le]
    rw [List.length_drop, length_pointers]
    omega

theorem Aligned.conveys_body (aligned : response.Aligned conn s) (past : response.header ≤ s)
    (run : conn.Transmission calls results) :
    response.Conveys conn calls results (response.pointers.drop s) := by
  induction results generalizing conn s calls with
  | nil => exact absurd (by rw [CHttp.writeCalls_nil aligned.carried.waiting]) run.finished
  | cons result results ih =>
    rcases aligned.next run with ⟨rest, later, same, tail, conveys⟩ |
      ⟨count, errno, rest, same, positive, more, tail, conveys⟩ | ⟨count, errno, same, _, _, conveys⟩
    · cases same
      exact conveys.mpr (ih aligned past tail)
    · cases same
      exact conveys.mpr (ih (aligned.advance more (.inr (by omega))) (by omega) tail)
    · exact conveys

theorem getElem?_pointers_head {i : Nat} (inside : i < response.header) :
    response.pointers[i]? = some ⟨.writeData, i⟩ := by
  rw [pointers, List.getElem?_append_left (by rwa [Region.length_pointers])]
  simp only [Region.pointers, List.getElem?_map, List.getElem?_range inside, Option.map_some]

theorem Conveys.start (conveys : response.Conveys conn calls results expected) (waiting : conn.dataLen ≠ 0) :
    response.Sound conn := by
  have here := conveys.sound 0 (Nat.zero_le _)
  rwa [List.take_zero, CHttp.writeCalls_nil waiting] at here

/-- Dropping the first vector before the head is out points the second one in front of the file. -/
theorem Carried.not_sound_early {count : Nat} (carried : response.Carried conn s)
    (more : s + count < response.total) (past : conn.iv0.len ≤ s + count) (early : s + count < response.header) :
    ¬ response.Sound (conn.count count).advance := by
  intro sound
  have within := sound.iv1
  rw [(carried.advance_past more past).2] at within
  rcases within with empty | ⟨_, low, _⟩
  · simp only at empty
    omega
  · simp only at low
    omega

/-- Once bytes of the head are lost, no way of going on makes the response exact. -/
theorem Lagging.not_conveys (lagging : response.Lagging conn s) (run : conn.Transmission calls results) :
    ¬ response.Conveys conn calls results (response.pointers.drop s) := by
  induction results generalizing conn s calls with
  | nil => exact absurd (by rw [CHttp.writeCalls_nil lagging.carried.waiting]) run.finished
  | cons result results ih =>
    intro conveyed
    obtain ⟨left, positive, behind, iv0, iv1⟩ := lagging.pending
    have total : response.total = response.header + response.size := rfl
    have bound := lagging.carried.total
    have len0 : conn.iv0.len = left := by rw [iv0]
    have len1 : conn.iv1.len = response.size := by rw [iv1]
    obtain ⟨rest, later, same, tail, conveys⟩ | ⟨count, errno, rest, same, _, offered, more, tail, conveys⟩ |
      ⟨count, errno, same, all, offered, conveys⟩ := lagging.carried.next run (by omega)
    · cases same
      exact ih lagging tail ((conveys _).mp conveyed).2
    · cases same
      obtain ⟨_, others, split, conveysNext⟩ := (conveys _).mp conveyed
      have both : conn.offered = conn.iv0.pointers ++ conn.iv1.pointers := by
        simp [CHttp.offered, lagging.carried.ivCount]
      have size0 : conn.iv0.pointers.length = left := by simp [IoVec.pointers, len0]
      have size1 : conn.iv1.pointers.length = response.size := by simp [IoVec.pointers, len1]
      have chunk : (conn.offered.take count).length = count := by
        rw [List.length_take, both, List.length_append]
        omega
      have carriedNext := lagging.carried.advance more
      by_cases inside : s + count < left
      · have next := lagging.carried.advance_inside more (by omega) (by omega)
        have others_eq : others = response.pointers.drop (s + count) := by
          rw [← List.drop_drop, split, List.drop_left' chunk]
        rw [others_eq] at conveysNext
        exact ih ⟨carriedNext, left - (s + count), by omega, by omega, by rw [next.1, len0],
          by rw [next.2, iv1]⟩ tail conveysNext
      · by_cases early : s + count < response.header
        · exact lagging.carried.not_sound_early more (by omega) early (conveysNext.start carriedNext.waiting)
        · have expected : (response.pointers.drop s)[left]? = some ⟨.writeData, (s + left : Nat)⟩ := by
            rw [List.getElem?_drop, getElem?_pointers_head behind]
          have actual : (response.pointers.drop s)[left]? = some ⟨.file response.addr, 0⟩ := by
            rw [split, List.getElem?_append_left (by omega), List.getElem?_take_of_lt (by omega), both,
              List.getElem?_append_right (by omega), size0, Nat.sub_self, iv1]
            simp only [IoVec.pointers, List.getElem?_map, List.getElem?_range (by omega : 0 < response.size)]
            rfl
          rw [expected] at actual
          cases actual
    · omega

@[simp] theorem writeCounts_eagain (results : List WritevResult) :
    writeCounts (⟨-1, .eagain⟩ :: results) = writeCounts results := by
  simp [writeCounts]

theorem writeCounts_count {count : Nat} (positive : 1 ≤ count) (errno : Errno) (results : List WritevResult) :
    writeCounts (⟨count, errno⟩ :: results) = count :: writeCounts results := by
  have nonzero : count ≠ 0 := by omega
  simp [writeCounts, nonzero]

/-- The next write ends inside the head again, after one that ended there at `s`. -/
def CutAgain (response : FileResponse) (s : Nat) (counts : List Nat) : Prop :=
  ∃ count rest, counts = count :: rest ∧ s + count < response.header

/-- The first two writes both end inside the head. -/
def CutTwice (response : FileResponse) (counts : List Nat) : Prop :=
  ∃ first second rest, counts = first :: second :: rest ∧ first + second < response.header

theorem Aligned.not_conveys_again {count : Nat} (aligned : response.Aligned conn s) (cut : 0 < s)
    (inside : s + count < response.header) (more : s + count < response.total)
    (run : (conn.count count).advance.Transmission calls results) :
    ¬ response.Conveys (conn.count count).advance calls results (response.pointers.drop (s + count)) := by
  have carried := aligned.carried.advance more
  obtain ⟨iv0, iv1⟩ := aligned.head (by omega)
  have len : conn.iv0.len = response.header - s := by rw [iv0]
  have bound := aligned.carried.total
  have total : response.total = response.header + response.size := rfl
  by_cases short : s + count < response.header - s
  · have next := aligned.carried.advance_inside more (by omega) (by omega)
    have lagging : response.Lagging (conn.count count).advance (s + count) :=
      ⟨carried, response.header - s - (s + count), by omega, by omega, by rw [next.1, len], by rw [next.2, iv1]⟩
    exact lagging.not_conveys run
  · intro conveyed
    exact aligned.carried.not_sound_early more (by omega) inside (conveyed.start carried.waiting)

theorem Aligned.conveys_iff_again (aligned : response.Aligned conn s) (cut : 0 < s)
    (run : conn.Transmission calls results) :
    response.Conveys conn calls results (response.pointers.drop s) ↔
      ¬ response.CutAgain s (writeCounts results) := by
  induction results generalizing calls with
  | nil => exact absurd (by rw [CHttp.writeCalls_nil aligned.carried.waiting]) run.finished
  | cons result results ih =>
    rcases aligned.next run with ⟨rest, later, same, tail, conveys⟩ |
      ⟨count, errno, rest, same, positive, more, tail, conveys⟩ | ⟨count, errno, same, positive, all, conveys⟩
    · cases same
      rw [conveys, ih tail, writeCounts_eagain]
    · cases same
      rw [conveys, writeCounts_count positive]
      by_cases inside : s + count < response.header
      · exact iff_of_false (aligned.not_conveys_again cut inside more tail)
          (not_not_intro ⟨count, _, rfl, inside⟩)
      · refine iff_of_true ((aligned.advance more (.inr (by omega))).conveys_body (by omega) tail) ?_
        rintro ⟨_, _, same, early⟩
        cases same
        exact inside early
    · cases same
      refine iff_of_true conveys ?_
      rw [writeCounts_count positive]
      rintro ⟨_, _, same, early⟩
      cases same
      have total : response.total = response.header + response.size := rfl
      omega

theorem Aligned.conveys_iff (aligned : response.Aligned conn 0) (run : conn.Transmission calls results) :
    response.Conveys conn calls results response.pointers ↔ ¬ response.CutTwice (writeCounts results) := by
  induction results generalizing calls with
  | nil => exact absurd (by rw [CHttp.writeCalls_nil aligned.carried.waiting]) run.finished
  | cons result results ih =>
    rcases aligned.next run with ⟨rest, later, same, tail, conveys⟩ |
      ⟨count, errno, rest, same, positive, more, tail, conveys⟩ | ⟨count, errno, same, positive, all, conveys⟩
    · cases same
      rw [List.drop_zero] at conveys
      rw [conveys, ih tail, writeCounts_eagain]
    · cases same
      rw [List.drop_zero, Nat.zero_add] at conveys
      have next := aligned.advance more (.inl rfl)
      rw [Nat.zero_add] at next
      rw [conveys, next.conveys_iff_again (by omega) tail, writeCounts_count positive]
      refine not_congr ⟨?_, ?_⟩
      · rintro ⟨second, others, same, inside⟩
        exact ⟨count, second, others, by rw [same], inside⟩
      · rintro ⟨first, second, others, same, inside⟩
        obtain ⟨rfl, following⟩ := List.cons.inj same
        exact ⟨second, others, following, inside⟩
    · cases same
      refine iff_of_true conveys ?_
      rintro ⟨_, _, _, same, _⟩
      rw [writeCounts_count positive] at same
      cases same

end FileResponse

/-- The response that the 200 branch of `ParseWrite` leaves for `Write`. -/
def CHttp.fileResponse (conn : CHttp) (size : Nat) : FileResponse :=
  ⟨conn.writeData, conn.writeIdx, conn.fileAddr, size⟩

theorem CHttp.Prepared.aligned {conn : CHttp} (prepared : conn.Prepared header size) (some : 0 < header.length)
    (fits : header.length + size < 2 ^ 31) : (conn.fileResponse size).Aligned conn 0 := by
  have head : (conn.fileResponse size).header = header.length := prepared.writeIdx
  have total : (conn.fileResponse size).total = header.length + size := congrArg (· + size) head
  have dataLen := prepared.dataLen
  rw [int32_eq (by omega) (by omega)] at dataLen
  refine ⟨⟨by omega, by omega, prepared.dataSendLen, by omega, rfl, rfl, rfl, prepared.ivCount,
    prepared.linger⟩, fun _ => ⟨?_, prepared.iv1⟩, fun past => by omega⟩
  rw [head]
  exact prepared.iv0

theorem CHttp.Prepared.not_conveys {conn : CHttp} (prepared : conn.Prepared header size)
    (large : 2 ^ 31 ≤ header.length + size) :
    ¬ (conn.fileResponse size).Conveys conn calls results pointers := by
  intro conveyed
  have total : (conn.fileResponse size).total = header.length + size := congrArg (· + size) prepared.writeIdx
  have here := (conveyed.sound 0 (Nat.zero_le _)).counted
  rw [total, List.take_zero] at here
  by_cases waiting : conn.dataLen ≠ 0
  · rw [writeCalls_nil waiting] at here
    have wrapped := (int32_bounds (header.length + size)).2
    have dataLen := prepared.dataLen
    have sendLen := prepared.dataSendLen
    simp only at here
    omega
  · have none : conn.dataLen == 0 := by simpa using waiting
    have reset : (conn.writeCalls [] calls).conn = conn.reset := by
      cases calls <;> simp [writeCalls, write, none, CHttp.reset]
    rw [reset] at here
    simp only [CHttp.reset] at here
    omega

/-- A file's response goes out exactly, with sound vectors and counters all the way, if and
only if its size fits an `int` and no two writes end inside the head. -/
theorem CHttp.parseWrite_conveys_iff {conn prepared : CHttp} (receiving : conn.Receiving)
    (reply : replyTo status answer = .file stat) (made : conn.parseWrite status answer = (prepared, ret))
    (run : prepared.Transmission calls results) :
    (prepared.fileResponse stat.stSize).Conveys prepared calls results
        (prepared.fileResponse stat.stSize).pointers ↔
      (prepared.fileResponse stat.stSize).total < 2 ^ 31 ∧
        ¬ (prepared.fileResponse stat.stSize).CutTwice (writeCounts results) := by
  have shape := (parseWrite_file receiving.idle reply).2
  rw [made] at shape
  have nonempty := (length_fileHeader false stat.stSize).1
  have total : (prepared.fileResponse stat.stSize).total =
      (fileHeader false stat.stSize).length + stat.stSize := congrArg (· + stat.stSize) shape.writeIdx
  by_cases fits : (fileHeader false stat.stSize).length + stat.stSize < 2 ^ 31
  · rw [(shape.aligned nonempty fits).conveys_iff run, total, and_iff_right fits]
  · refine iff_of_false (shape.not_conveys (by omega)) ?_
    rintro ⟨small, _⟩
    omega

/-- Two single bytes go out first, and the last byte of the head never does: the third
write sends 78 bytes of the head and the file, the fourth the last byte of the file again. -/
theorem hundredBytes_not_conveyed :
    ((default : CHttp).init 5 1).1.Receiving ∧ replyTo .complete hundredBytes = .file ⟨100, 0o100644⟩ ∧
    hundredBytesPrepared.1.Transmission 4 [⟨1, .eagain⟩, ⟨1, .eagain⟩, ⟨178, .eagain⟩, ⟨1, .eagain⟩] ∧
    ¬ (hundredBytesPrepared.1.fileResponse 100).Conveys hundredBytesPrepared.1 4
        [⟨1, .eagain⟩, ⟨1, .eagain⟩, ⟨178, .eagain⟩, ⟨1, .eagain⟩]
        (hundredBytesPrepared.1.fileResponse 100).pointers := by
  have receiving : ((default : CHttp).init 5 1).1.Receiving := .init default 5 1
  have reply : replyTo .complete hundredBytes = .file ⟨100, 0o100644⟩ := by decide
  have run : hundredBytesPrepared.1.Transmission 4 [⟨1, .eagain⟩, ⟨1, .eagain⟩, ⟨178, .eagain⟩, ⟨1, .eagain⟩] :=
    ⟨by decide, by decide +kernel, by decide +kernel, by decide +kernel⟩
  refine ⟨receiving, reply, run, ?_⟩
  have prepared : hundredBytesPrepared.1.Prepared (fileHeader false 100) 100 :=
    (CHttp.parseWrite_file receiving.idle reply).2
  have head : (hundredBytesPrepared.1.fileResponse 100).header = 81 := by decide +kernel
  rw [(prepared.aligned (length_fileHeader false 100).1 (by decide +kernel)).conveys_iff run, not_not]
  exact ⟨1, 1, [178, 1], rfl, by omega⟩

theorem hundredBytes_conveyed :
    (hundredBytesPrepared.1.fileResponse 100).Conveys hundredBytesPrepared.1 4
        [⟨60, .eagain⟩, ⟨-1, .eagain⟩, ⟨100, .eagain⟩, ⟨21, .eagain⟩]
        (hundredBytesPrepared.1.fileResponse 100).pointers ↔
      (hundredBytesPrepared.1.fileResponse 100).total < 2 ^ 31 ∧
        ¬ (hundredBytesPrepared.1.fileResponse 100).CutTwice [60, 100, 21] := by
  have reply : replyTo .complete hundredBytes = .file ⟨100, 0o100644⟩ := by decide
  have made : ((default : CHttp).init 5 1).1.parseWrite .complete hundredBytes =
      (hundredBytesPrepared.1, hundredBytesPrepared.2) := rfl
  have run : hundredBytesPrepared.1.Transmission 4
      [⟨60, .eagain⟩, ⟨-1, .eagain⟩, ⟨100, .eagain⟩, ⟨21, .eagain⟩] :=
    ⟨by decide, by decide +kernel, by decide +kernel, by decide +kernel⟩
  exact CHttp.parseWrite_conveys_iff (.init default 5 1) reply made run

end WSlyh.Http
