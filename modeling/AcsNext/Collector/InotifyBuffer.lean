import AcsNext.Collector.ProcessSignal

/-! The buffer of the inotify reader: events are read in bulk and handed out one at a time. -/
namespace AcsNext.Collector

def eventHeaderSize : ℕ := 16

/-- A record of the kernel: `wd`, `mask` and `cookie`, then the length of the name and the name
with its padding. -/
structure EventRecord where
  head : Bytes
  name : Bytes
  head_length : head.length = 12
  name_length : name.length < 2 ^ 32

/-- The four bytes of a length, the first one least significant. -/
def lengthBytes (n : ℕ) : Bytes :=
  [UInt8.ofNat n, UInt8.ofNat (n / 256), UInt8.ofNat (n / 65536), UInt8.ofNat (n / 16777216)]

def EventRecord.bytes (r : EventRecord) : Bytes := r.head ++ lengthBytes r.name.length ++ r.name

/-- What a successful `read` of up to 1024 bytes returns: whole records, at least one. -/
structure ReadEvents where
  records : List EventRecord
  nonempty : records ≠ []
  fits : (records.flatMap EventRecord.bytes).length ≤ 1024

def ReadEvents.bytes (e : ReadEvents) : Bytes := e.records.flatMap EventRecord.bytes

inductive ReadOutcome where
  | fails
  | events (e : ReadEvents)

inductive SelectOutcome where
  | fails
  | timesOut
  | ready (read : ReadOutcome)

structure InotifyReader where
  buffer : Bytes
  currByte : ℕ
  readData : ℕ
  buffer_length : buffer.length = 1024

/-- An event is what the returned pointer refers to. `outOfRange` is the exception of `at`, or a
header that reaches beyond the buffer. -/
inductive InotifyResult where
  | event (bytes : Bytes)
  | error
  | timeout
  | outOfRange
deriving DecidableEq

/-- A call, with the end of the part of the buffer that it refers to and the outcome that it has
waited for. -/
structure InotifyCall where
  result : InotifyResult
  accessEnd : ℕ
  outcome : Option SelectOutcome

namespace InotifyReader

def initial : InotifyReader := ⟨List.replicate 1024 0, 0, 0, List.length_replicate⟩

def eventLen (s : InotifyReader) (pos : ℕ) : ℕ :=
  (s.buffer.getD (pos + 12) 0).toNat + 256 * (s.buffer.getD (pos + 13) 0).toNat +
    65536 * (s.buffer.getD (pos + 14) 0).toNat + 16777216 * (s.buffer.getD (pos + 15) 0).toNat

/-- The event at a position is returned, and `curr_byte_` is set behind it. -/
def takeEvent (s : InotifyReader) (pos : ℕ) (outcome : Option SelectOutcome) :
    InotifyCall × InotifyReader :=
  if pos + eventHeaderSize ≤ s.buffer.length then
    let size := eventHeaderSize + s.eventLen pos
    (⟨.event ((s.buffer.drop pos).take size), pos + size, outcome⟩,
      { s with currByte := pos + size })
  else (⟨.outOfRange, pos + eventHeaderSize, outcome⟩, s)

/-- The call `read`, whose result is stored as a `size_t`. -/
def read (s : InotifyReader) : ReadOutcome → InotifyReader
  | .fails => { s with readData := 2 ^ 64 - 1 }
  | .events e => { s with
      buffer := e.bytes ++ s.buffer.drop e.bytes.length
      readData := e.bytes.length
      buffer_length := by
        have hfits : e.bytes.length ≤ 1024 := e.fits
        rw [List.length_append, List.length_drop, s.buffer_length]
        omega }

/-- `GetNext`, with the outcomes that are still to come; it waits for ever if there are none. -/
def getNext (s : InotifyReader) (env : List SelectOutcome) :
    Option (InotifyCall × InotifyReader × List SelectOutcome) :=
  if s.currByte < s.readData then
    let taken := s.takeEvent s.currByte none
    some (taken.1, taken.2, env)
  else
    match env with
    | [] => none
    | .fails :: env => some (⟨.error, 0, some .fails⟩, s, env)
    | .timesOut :: env => some (⟨.timeout, 0, some .timesOut⟩, s, env)
    | .ready outcome :: env =>
      let s := s.read outcome
      -- the comparison of the source, on an unsigned number
      if s.readData < 0 then some (⟨.error, 0, some (.ready outcome)⟩, s, env)
      else
        let taken := s.takeEvent 0 (some (.ready outcome))
        some (taken.1, taken.2, env)

end InotifyReader

def lastRead (n : ℕ) : Option SelectOutcome → ℕ
  | some (.ready (.events e)) => e.bytes.length
  | _ => n

/-- The first `k` calls of `GetNext`, each with the number of bytes of the last successful read. -/
def inotifyRun : ℕ → ℕ → InotifyReader → List SelectOutcome → List (InotifyCall × ℕ)
  | 0, _, _, _ => []
  | k + 1, n, s, env =>
    match s.getNext env with
    | none => []
    | some (call, s', env') =>
      (call, lastRead n call.outcome) :: inotifyRun k (lastRead n call.outcome) s' env'

def expectedResults : SelectOutcome → List InotifyResult
  | .fails => [.error]
  | .timesOut => [.timeout]
  | .ready .fails => [.error]
  | .ready (.events e) => e.records.map fun r => .event r.bytes

/-- Any number of calls return the expected results, and refer to bytes of the last successful
read only. -/
def ExtractsEvents (env : List SelectOutcome) : Prop :=
  ∀ k, (inotifyRun k 0 .initial env).map (fun c => c.1.result) =
      (env.flatMap expectedResults).take k ∧
    ∀ c ∈ inotifyRun k 0 .initial env, c.1.accessEnd ≤ c.2

theorem EventRecord.length_bytes (r : EventRecord) :
    r.bytes.length = eventHeaderSize + r.name.length := by
  simp only [bytes, List.length_append, r.head_length, lengthBytes, List.length_cons,
    List.length_nil, eventHeaderSize]

theorem lengthBytes_sum {n : ℕ} (h : n < 2 ^ 32) :
    (UInt8.ofNat n).toNat + 256 * (UInt8.ofNat (n / 256)).toNat +
      65536 * (UInt8.ofNat (n / 65536)).toNat + 16777216 * (UInt8.ofNat (n / 16777216)).toNat =
      n := by
  simp only [UInt8.toNat_ofNat']
  omega

namespace InotifyReader

variable {s : InotifyReader} {n : ℕ} {rs : List EventRecord} {r : EventRecord}

theorem eventLen_of_buffer {front rest : Bytes} (h : s.buffer = front ++ (r.bytes ++ rest)) :
    s.eventLen front.length = r.name.length := by
  have hsplit : s.buffer = (front ++ r.head) ++ (lengthBytes r.name.length ++ (r.name ++ rest)) := by
    rw [h]
    simp [EventRecord.bytes]
  have hget : ∀ i, s.buffer.getD (front.length + (12 + i)) 0 =
      (lengthBytes r.name.length ++ (r.name ++ rest)).getD i 0 := by
    intro i
    have hlength : (front ++ r.head).length = front.length + 12 := by
      rw [List.length_append, r.head_length]
    rw [hsplit, List.getD_eq_getElem?_getD, List.getElem?_append_right (by omega), hlength,
      List.getD_eq_getElem?_getD]
    congr 2
    omega
  unfold eventLen
  rw [hget 0, hget 1, hget 2, hget 3]
  exact lengthBytes_sum r.name_length

/-- The records that are left in the buffer after the last read of `n` bytes. -/
structure Pending (s : InotifyReader) (n : ℕ) (rs : List EventRecord) : Prop where
  readData : s.readData = n
  buffer : ∃ front rest, s.buffer = front ++ (rs.flatMap EventRecord.bytes ++ rest) ∧
    s.currByte = front.length ∧ front.length + (rs.flatMap EventRecord.bytes).length = n

theorem pending_initial : Pending initial 0 [] := ⟨rfl, [], initial.buffer, rfl, rfl, rfl⟩

theorem takeEvent_of_buffer {front rest : Bytes} (h : s.buffer = front ++ (r.bytes ++ rest))
    (outcome : Option SelectOutcome) :
    s.takeEvent front.length outcome =
      (⟨.event r.bytes, front.length + r.bytes.length, outcome⟩,
        { s with currByte := front.length + r.bytes.length }) := by
  have hroom : front.length + eventHeaderSize ≤ s.buffer.length := by
    rw [h, List.length_append, List.length_append, r.length_bytes]
    omega
  have hevent : (s.buffer.drop front.length).take r.bytes.length = r.bytes := by
    rw [h, List.drop_left, List.take_left]
  unfold takeEvent
  rw [if_pos hroom, eventLen_of_buffer h, ← r.length_bytes]
  dsimp only
  rw [hevent]

theorem getNext_of_lt (h : s.currByte < s.readData) (env : List SelectOutcome) :
    s.getNext env =
      some ((s.takeEvent s.currByte none).1, (s.takeEvent s.currByte none).2, env) := by
  unfold getNext
  rw [if_pos h]

/-- A read is never taken for a failure. -/
theorem getNext_ready (h : ¬ s.currByte < s.readData) (outcome : ReadOutcome)
    (env : List SelectOutcome) :
    s.getNext (.ready outcome :: env) =
      some (((s.read outcome).takeEvent 0 (some (.ready outcome))).1,
        ((s.read outcome).takeEvent 0 (some (.ready outcome))).2, env) := by
  unfold getNext
  rw [if_neg h]
  dsimp only
  rw [if_neg (Nat.not_lt_zero _)]

theorem getNext_pending (h : Pending s n (r :: rs)) (env : List SelectOutcome) :
    ∃ call s', s.getNext env = some (call, s', env) ∧ call.result = .event r.bytes ∧
      call.outcome = none ∧ call.accessEnd ≤ n ∧ Pending s' n rs := by
  obtain ⟨hread, front, rest, hbuffer, hcurr, hlength⟩ := h
  rw [List.flatMap_cons] at hbuffer hlength
  rw [List.append_assoc] at hbuffer
  rw [List.length_append] at hlength
  have hsize := r.length_bytes
  have hleft : s.currByte < s.readData := by
    unfold eventHeaderSize at hsize
    omega
  have htaken := takeEvent_of_buffer hbuffer none
  rw [getNext_of_lt hleft, hcurr, htaken]
  refine ⟨_, _, rfl, rfl, rfl, ?_, hread, front ++ r.bytes, rest, ?_, ?_, ?_⟩
  · dsimp only
    omega
  · rw [hbuffer]
    simp
  · simp
  · rw [List.length_append]
    omega

theorem Pending.drained (h : Pending s n []) : ¬ s.currByte < s.readData := by
  obtain ⟨hread, front, rest, _, hcurr, hlength⟩ := h
  simp at hlength
  omega

/-- After a successful read its first record is returned and the others are left. -/
theorem getNext_events (h : Pending s n []) (e : ReadEvents) (env : List SelectOutcome) :
    ∃ call s' r rs, s.getNext (.ready (.events e) :: env) = some (call, s', env) ∧
      e.records = r :: rs ∧ call.result = .event r.bytes ∧
      call.outcome = some (.ready (.events e)) ∧ call.accessEnd ≤ e.bytes.length ∧
      Pending s' e.bytes.length rs := by
  obtain ⟨r, rs, hrecords⟩ := List.exists_cons_of_ne_nil e.nonempty
  have hbytes : e.bytes = r.bytes ++ rs.flatMap EventRecord.bytes := by
    rw [ReadEvents.bytes, hrecords, List.flatMap_cons]
  have hbuffer : (s.read (.events e)).buffer = [] ++ (r.bytes ++
      (rs.flatMap EventRecord.bytes ++ s.buffer.drop e.bytes.length)) := by
    change e.bytes ++ s.buffer.drop e.bytes.length = _
    nth_rewrite 1 [hbytes]
    simp
  have htaken := takeEvent_of_buffer hbuffer (some (.ready (.events e)))
  rw [List.length_nil] at htaken
  rw [getNext_ready h.drained, htaken]
  refine ⟨_, _, r, rs, rfl, hrecords, rfl, rfl, ?_, rfl, r.bytes, _, hbuffer, ?_, ?_⟩
  · rw [hbytes, List.length_append]
    simp
  · simp
  · rw [hbytes, List.length_append]

theorem takeEvent_ne_error (s : InotifyReader) (pos : ℕ) (outcome : Option SelectOutcome) :
    (s.takeEvent pos outcome).1.result ≠ .error := by
  unfold takeEvent
  split_ifs <;> exact InotifyResult.noConfusion

end InotifyReader

open InotifyReader

theorem expectedResults_ne_nil (o : SelectOutcome) : expectedResults o ≠ [] := by
  rcases o with _ | _ | _ | e
  · simp [expectedResults]
  · simp [expectedResults]
  · simp [expectedResults]
  · simpa [expectedResults] using e.nonempty

/-- What is still to be returned: the records in the buffer, then what comes of the outcomes. -/
def expectedStream (rs : List EventRecord) (env : List SelectOutcome) : List InotifyResult :=
  (rs.map fun r => .event r.bytes) ++ env.flatMap expectedResults

variable {s : InotifyReader} {n : ℕ} {rs : List EventRecord} {env : List SelectOutcome}

theorem getNext_step (h : Pending s n rs) (henv : ∀ o ∈ env, o ≠ .ready .fails)
    {x : InotifyResult} {stream : List InotifyResult} (hstream : expectedStream rs env = x :: stream)
    (later : List SelectOutcome) :
    ∃ call s' rs' env', s.getNext (env ++ later) = some (call, s', env' ++ later) ∧
      call.result = x ∧ expectedStream rs' env' = stream ∧
      call.accessEnd ≤ lastRead n call.outcome ∧ Pending s' (lastRead n call.outcome) rs' ∧
      ∀ o ∈ env', o ≠ .ready .fails := by
  cases rs with
  | cons r rs =>
    obtain ⟨call, s', hnext, hresult, houtcome, haccess, hpending⟩ := getNext_pending h (env ++ later)
    obtain ⟨rfl, rfl⟩ := List.cons_eq_cons.mp hstream
    refine ⟨call, s', rs, env, hnext, hresult, rfl, ?_, ?_, henv⟩ <;> rw [houtcome]
    · exact haccess
    · exact hpending
  | nil =>
    cases env with
    | nil => cases hstream
    | cons o env =>
      have henv' : ∀ o ∈ env, o ≠ .ready .fails := fun o ho => henv o (List.mem_cons_of_mem _ ho)
      cases o with
      | fails =>
        obtain ⟨rfl, rfl⟩ := List.cons_eq_cons.mp hstream
        refine ⟨⟨.error, 0, some .fails⟩, s, [], env, ?_, rfl, rfl, Nat.zero_le _, h, henv'⟩
        simp [getNext, h.drained]
      | timesOut =>
        obtain ⟨rfl, rfl⟩ := List.cons_eq_cons.mp hstream
        refine ⟨⟨.timeout, 0, some .timesOut⟩, s, [], env, ?_, rfl, rfl, Nat.zero_le _, h, henv'⟩
        simp [getNext, h.drained]
      | ready outcome =>
        cases outcome with
        | fails => exact absurd rfl (henv _ (by simp))
        | events e =>
          obtain ⟨call, s', r, rs, hnext, hrecords, hresult, houtcome, haccess, hpending⟩ :=
            getNext_events h e (env ++ later)
          have hsplit : expectedStream [] (.ready (.events e) :: env) =
              .event r.bytes :: expectedStream rs env := by
            simp [expectedStream, expectedResults, hrecords]
          obtain ⟨rfl, rfl⟩ := List.cons_eq_cons.mp (hsplit.symm.trans hstream)
          refine ⟨call, s', rs, env, hnext, hresult, rfl, ?_, ?_, henv'⟩ <;> rw [houtcome]
          · exact haccess
          · exact hpending

/-- The calls that use up the outcomes `env`, whatever comes after them. -/
theorem inotifyRun_append (h : Pending s n rs) (henv : ∀ o ∈ env, o ≠ .ready .fails) (j : ℕ)
    (later : List SelectOutcome) :
    ∃ calls n' s', inotifyRun ((expectedStream rs env).length + j) n s (env ++ later) =
        calls ++ inotifyRun j n' s' later ∧
      calls.map (fun c => c.1.result) = expectedStream rs env ∧
      (∀ c ∈ calls, c.1.accessEnd ≤ c.2) ∧ Pending s' n' [] := by
  induction hstream : expectedStream rs env generalizing s n rs env with
  | nil =>
    obtain ⟨hrs, houtcomes⟩ := List.append_eq_nil_iff.mp hstream
    obtain rfl : rs = [] := List.map_eq_nil_iff.mp hrs
    obtain rfl : env = [] := List.eq_nil_iff_forall_not_mem.mpr fun o ho =>
      expectedResults_ne_nil o (List.flatMap_eq_nil_iff.mp houtcomes o ho)
    exact ⟨[], n, s, by simp, rfl, by simp, h⟩
  | cons x stream ih =>
    obtain ⟨call, s', rs', env', hnext, hresult, hrest, haccess, hpending, henv'⟩ :=
      getNext_step h henv hstream later
    obtain ⟨calls, n'', s'', hrun, hresults, hbounds, hdrained⟩ := ih hpending henv' hrest
    refine ⟨(call, lastRead n call.outcome) :: calls, n'', s'', ?_, ?_, ?_, hdrained⟩
    · have hcount : (x :: stream).length + j = stream.length + j + 1 := by
        rw [List.length_cons]
        omega
      rw [hcount, inotifyRun, hnext]
      dsimp only
      rw [hrun, List.cons_append]
    · rw [List.map_cons, hresult, hresults]
    · intro c hc
      rcases List.mem_cons.mp hc with rfl | hc
      · exact haccess
      · exact hbounds c hc

theorem inotifyRun_take (k j n : ℕ) (s : InotifyReader) (env : List SelectOutcome) :
    (inotifyRun (k + j) n s env).take k = inotifyRun k n s env := by
  induction k generalizing n s env with
  | zero => simp [inotifyRun]
  | succ k ih =>
    have hcount : k + 1 + j = k + j + 1 := by omega
    rw [hcount, inotifyRun, inotifyRun]
    cases s.getNext env with
    | none => rfl
    | some next => simp [ih]

/-- Without failing reads. -/
theorem extractsEvents_of_reads (henv : ∀ o ∈ env, o ≠ .ready .fails) : ExtractsEvents env := by
  intro k
  obtain ⟨calls, n', s', hrun, hresults, hbounds, hdrained⟩ :=
    inotifyRun_append pending_initial henv k []
  have hwaits : inotifyRun k n' s' [] = [] := by
    cases k with
    | zero => rfl
    | succ k => simp [inotifyRun, getNext, hdrained.drained]
  rw [List.append_nil, hwaits, List.append_nil, Nat.add_comm] at hrun
  have hfirst : inotifyRun k 0 .initial env = calls.take k := by
    rw [← hrun, inotifyRun_take]
  rw [hfirst]
  refine ⟨?_, fun c hc => hbounds c (List.mem_of_mem_take hc)⟩
  rw [List.map_take, hresults]
  simp [expectedStream]

theorem not_extractsEvents_of_fails (henv : ∀ o ∈ env, o ≠ .ready .fails)
    (later : List SelectOutcome) : ¬ ExtractsEvents (env ++ .ready .fails :: later) := by
  intro h
  obtain ⟨calls, n', s', hrun, hresults, _, hdrained⟩ :=
    inotifyRun_append pending_initial henv 1 (.ready .fails :: later)
  have hnext := getNext_ready hdrained.drained .fails later
  have hresult := (h ((expectedStream [] env).length + 1)).1
  rw [hrun, List.map_append, hresults] at hresult
  have hexpected : ((env ++ .ready .fails :: later).flatMap expectedResults).take
      ((expectedStream [] env).length + 1) = expectedStream [] env ++ [.error] := by
    simp [expectedStream, expectedResults, List.take_append]
  rw [hexpected, List.append_cancel_left_eq] at hresult
  simp only [inotifyRun, hnext, List.map_cons, List.map_nil, List.cons.injEq] at hresult
  exact takeEvent_ne_error _ _ _ hresult.1

/-- The calls return what they should for the outcomes in which no read fails, and for no others. -/
theorem getNext_extractsEvents_iff (env : List SelectOutcome) :
    ExtractsEvents env ↔ SelectOutcome.ready .fails ∉ env := by
  constructor
  · intro h hmem
    obtain ⟨front, later, hsplit, hfront⟩ := List.eq_append_cons_of_mem hmem
    rw [hsplit] at h
    refine not_extractsEvents_of_fails (fun o ho heq => ?_) later h
    exact hfront (heq ▸ ho)
  · exact fun h => extractsEvents_of_reads fun o ho heq => h (heq ▸ ho)

/-- A single read, which fails: an event of zeros is returned. -/
theorem getNext_hides_failing_read : ¬ ∀ env, ExtractsEvents env := by
  intro h
  have hresult := (h [.ready .fails] 1).1
  have hevent : ((inotifyRun 1 0 .initial [.ready .fails]).map fun c => c.1.result) =
      [.event (List.replicate 16 0)] := by decide +kernel
  rw [hevent] at hresult
  exact absurd hresult (by decide)

end AcsNext.Collector
