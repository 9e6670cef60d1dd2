import MultiplexingRpc.PacketAccounting
/-!
# Phases — how a connection ends

The reader fiber leads a processor through a connection: it loops over incoming packets, disconnects the request
streams, waits for the last of them to be released, puts the terminating `NULL` into the writer queue and waits for the
writer.  `Phased` says what the rest of the processor looks like at each of these points.
-/
namespace Mrpc
namespace StreamProcessor

variable {s s' : StreamProcessor} {p : Packet} {o : StreamNo}

/-- No connection: nothing runs and nothing is queued. -/
def Quiet (s : StreamProcessor) : Prop :=
  s.writer = .stopped ∧ s.writerQueue = [] ∧ s.writerStopEvent = false ∧ s.activeCnt = 0

/-- The writer runs, and was not told to stop. -/
def Busy (s : StreamProcessor) : Prop := s.writer ≠ .stopped ∧ none ∉ s.writerQueue ∧ s.writerStopEvent = false

/-- The writer was told to stop: it will find the `NULL` at the end of the queue, or it found it. -/
def Draining (s : StreamProcessor) : Prop :=
  (s.writer ≠ .stopped ∧ s.writerStopEvent = false ∧ ∃ q : List Packet, s.writerQueue = q.map some ++ [none]) ∨
  (s.writer = .stopped ∧ s.writerStopEvent = true ∧ s.writerQueue = [])

def PhaseOk (s : StreamProcessor) : Prop :=
  match s.reader with
  | .stopped => s.state ≠ .working ∧ s.Quiet
  | .starting => s.state ≠ .stopped ∧ s.Quiet
  | .acquiring => s.state ≠ .stopped ∧ s.Busy
  | .reading _ => s.state ≠ .stopped ∧ s.Busy
  | .disconnecting _ => s.state = .stopInitiated ∧ s.Busy
  | .disconnectAcquiring _ _ => s.state = .stopInitiated ∧ s.Busy
  | .waitingStreams => s.state = .stopInitiated ∧ s.Busy
  | .waitingWriter => s.state = .stopInitiated ∧ s.activeCnt = 0 ∧ s.Draining

structure Phased (s : StreamProcessor) : Prop where
  phaseOk : s.PhaseOk
  streamsStopEvent : s.streamsStopEvent = true → s.activeCnt = 0

theorem phased_create : create.Phased :=
  ⟨⟨by decide, rfl, rfl, rfl, rfl⟩, fun h => by cases h⟩

/-- **While a stream is active the writer was not told to stop.** -/
theorem Phased.busy (h : s.Phased) (hcnt : 0 < s.activeCnt) : s.Busy := by
  have hp := h.phaseOk
  unfold PhaseOk at hp
  split at hp
  · exact absurd hp.2.2.2.2 (by omega)
  · exact absurd hp.2.2.2.2 (by omega)
  · exact hp.2
  · exact hp.2
  · exact hp.2
  · exact hp.2
  · exact hp.2
  · exact absurd hp.2.1 (by omega)

/-- A turn within a connection: the reader stays where it is and so does the processor's state. -/
theorem Phased.of_busy (h : s.Phased) (hcnt : 0 < s.activeCnt) (hreader : s'.reader = s.reader)
    (hstate : s'.state = s.state) (hbusy : s'.Busy) (hevent : s'.streamsStopEvent = true → s'.activeCnt = 0) :
    s'.Phased := by
  refine ⟨?_, hevent⟩
  have hp := h.phaseOk
  unfold PhaseOk at hp ⊢
  rw [hreader]
  split at hp
  · exact absurd hp.2.2.2.2 (by omega)
  · exact absurd hp.2.2.2.2 (by omega)
  · rw [hstate]; exact ⟨hp.1, hbusy⟩
  · rw [hstate]; exact ⟨hp.1, hbusy⟩
  · rw [hstate]; exact ⟨hp.1, hbusy⟩
  · rw [hstate]; exact ⟨hp.1, hbusy⟩
  · rw [hstate]; exact ⟨hp.1, hbusy⟩
  · exact absurd hp.2.1 (by omega)

theorem Phased.owner (h : s.Phased) (hs : s.Sound) {e : Event} (ht : Turn s e s') (hown : e.owner = some o) :
    s'.Phased := by
  obtain ⟨ho, ps, f, pool, queue, -, -, rfl⟩ := ht.ownerFrame hs.fiberOk hown
  have hpos := hs.activeCnt_pos ho
  obtain ⟨hw, hq, hev⟩ := h.busy hpos
  refine h.of_busy hpos rfl rfl ⟨hw, ?_, hev⟩ h.streamsStopEvent
  simp [hq]

theorem stopAsync_ne_stopped (h : s.state ≠ .stopped) : s.stopAsync.state ≠ .stopped := by
  unfold stopAsync
  dsimp only
  split
  · simp
  · exact h

theorem stopAsync_of_stopInitiated (h : s.state = .stopInitiated) : s.stopAsync.state = .stopInitiated := by
  simp [stopAsync, h]

/-- **A turn of the writer that does not end it** keeps the phase, also when it gives up the connection. -/
theorem Phased.writer (h : s.Phased) {state : ProcessorState} {writer : Writer} {queue : List (Option Packet)}
    {pool : Pool Packet} (hstate : state = s.state ∨ state = s.stopAsync.state) (hw : writer ≠ .stopped)
    (hs : s.writer ≠ .stopped) (hq : queue = s.writerQueue ∨ ∃ p, s.writerQueue = some p :: queue) :
    { s with state := state, writer := writer, writerQueue := queue, packetsPool := pool }.Phased := by
  refine ⟨?_, h.streamsStopEvent⟩
  have hp := h.phaseOk
  have hloop : s.state ≠ .stopped → state ≠ .stopped := fun hne => by
    rcases hstate with rfl | rfl
    · exact hne
    · exact stopAsync_ne_stopped hne
  have hstop : s.state = .stopInitiated → state = .stopInitiated := fun heq => by
    rcases hstate with rfl | rfl
    · exact heq
    · exact stopAsync_of_stopInitiated heq
  have hbusy : s.Busy →
      { s with state := state, writer := writer, writerQueue := queue, packetsPool := pool }.Busy := by
    rintro ⟨-, hnone, hev⟩
    refine ⟨hw, ?_, hev⟩
    rcases hq with rfl | ⟨p, hq⟩
    · exact hnone
    · rw [hq] at hnone
      exact fun hmem => hnone (List.mem_cons_of_mem _ hmem)
  unfold PhaseOk at hp ⊢
  dsimp only
  split at hp
  · exact absurd hp.2.1 hs
  · exact absurd hp.2.1 hs
  · exact ⟨hloop hp.1, hbusy hp.2⟩
  · exact ⟨hloop hp.1, hbusy hp.2⟩
  · exact ⟨hstop hp.1, hbusy hp.2⟩
  · exact ⟨hstop hp.1, hbusy hp.2⟩
  · exact ⟨hstop hp.1, hbusy hp.2⟩
  · obtain ⟨hst, hcnt, ⟨-, hev, q, hqueue⟩ | ⟨hws, -⟩⟩ := hp
    · refine ⟨hstop hst, hcnt, Or.inl ⟨hw, hev, ?_⟩⟩
      rcases hq with rfl | ⟨p, hq⟩
      · exact ⟨q, hqueue⟩
      · -- a packet was taken, so it stood before the `NULL`
        rw [hqueue] at hq
        cases q with
        | nil => cases hq
        | cons p' q =>
          cases hq
          exact ⟨q, rfl⟩
    · exact absurd hws hs

theorem eq_map_some_of_none_notMem : ∀ (l : List (Option Packet)), none ∉ l → ∃ q : List Packet, l = q.map some
  | [], _ => ⟨[], rfl⟩
  | none :: _, h => absurd List.mem_cons_self h
  | some p :: l, h => by
    obtain ⟨q, rfl⟩ := eq_map_some_of_none_notMem l (fun hmem => h (List.mem_cons_of_mem _ hmem))
    exact ⟨p :: q, rfl⟩

/-- **The writer finds the `NULL` only when the reader waits for it**, and nothing after it. -/
theorem Phased.writerEnd (h : s.Phased) {queue : List (Option Packet)} (hw : s.writer ≠ .stopped)
    (hq : s.writerQueue = none :: queue) :
    { s with writerQueue := queue, writer := .stopped, writerStopEvent := true }.Phased := by
  refine ⟨?_, h.streamsStopEvent⟩
  have hp := h.phaseOk
  have hnone : none ∈ s.writerQueue := hq ▸ List.mem_cons_self
  unfold PhaseOk at hp ⊢
  dsimp only
  split at hp
  · exact absurd hp.2.1 hw
  · exact absurd hp.2.1 hw
  · exact absurd hnone hp.2.2.1
  · exact absurd hnone hp.2.2.1
  · exact absurd hnone hp.2.2.1
  · exact absurd hnone hp.2.2.1
  · exact absurd hnone hp.2.2.1
  · obtain ⟨hst, hcnt, ⟨-, -, q, hqueue⟩ | ⟨hws, -⟩⟩ := hp
    · refine ⟨hst, hcnt, Or.inr ⟨rfl, rfl, ?_⟩⟩
      rw [hqueue] at hq
      cases q with
      | nil =>
        cases hq
        rfl
      | cons p q => cases hq
    · exact absurd hws hw

theorem Phased.turn (h : s.Phased) (hs : s.Sound) {e : Event} (ht : Turn s e s') : s'.Phased := by
  cases ho : e.owner with
  | some o => exact h.owner hs ht ho
  | none =>
    have hp := h.phaseOk
    unfold PhaseOk at hp
    cases ht.system ho with
    | readerAcquire hr | readerPass hr | readerDisconnect hr | readerBlock hr | readerDisconnectLate hr
    | readerLoopEnd hr =>
      rw [hr] at hp
      exact ⟨hp, h.streamsStopEvent⟩
    | readerStreamsStopped hr he =>
      rw [hr] at hp
      obtain ⟨hst, hw, hq, hev⟩ := hp
      obtain ⟨q, hq⟩ := eq_map_some_of_none_notMem _ hq
      exact ⟨⟨hst, h.streamsStopEvent he, Or.inl ⟨hw, hev, q, by rw [hq]⟩⟩, fun h => by cases h⟩
    | readerWriterStopped hr he =>
      rw [hr] at hp
      obtain ⟨hst, hcnt, ⟨-, hev, -⟩ | ⟨hw, -, hq⟩⟩ := hp
      · rw [hev] at he
        cases he
      · exact ⟨⟨by simp, hw, hq, rfl, hcnt⟩, h.streamsStopEvent⟩
    | readerFail hr =>
      rw [hr] at hp
      refine ⟨⟨?_, hp.2⟩, h.streamsStopEvent⟩
      have hne := hp.1
      show (if s.state = .working then ProcessorState.stopInitiated else s.state) = .stopInitiated
      cases hst : s.state <;> simp_all
    | writerGet hw hq => exact h.writer (Or.inl rfl) (by simp) (by simp [hw]) (Or.inr ⟨_, hq⟩)
    | writerSkip hw hq => exact h.writer (Or.inl rfl) (by simp [hw]) (by simp [hw]) (Or.inr ⟨_, hq⟩)
    | writerEnd hw hq => exact h.writerEnd (by rcases hw with hw | hw <;> simp [hw]) hq
    | writeOk hw => exact h.writer (Or.inl rfl) (by split <;> simp) (by simp [hw]) (Or.inl rfl)
    | writeFail hw => exact h.writer (Or.inr rfl) (by simp) (by simp [hw]) (Or.inl rfl)
    | flushOk hw => exact h.writer (Or.inl rfl) (by simp) (by simp [hw]) (Or.inl rfl)
    | flushFail hw => exact h.writer (Or.inr rfl) (by simp) (by simp [hw]) (Or.inl rfl)

/-- **A stream is entered while the reader loops.** -/
theorem Phased.enter (h : s.Phased) {r : RequestId} (hr : s.reader = .acquiring ∨ ∃ p, s.reader = .reading p) :
    (s.enter r o).Phased := by
  have hp := h.phaseOk
  refine ⟨?_, ?_⟩
  · unfold PhaseOk at hp ⊢
    rcases hr with hr | ⟨p, hr⟩
    · rw [hr] at hp
      simp only [StreamProcessor.enter, hr]
      exact hp
    · rw [hr] at hp
      simp only [StreamProcessor.enter, hr]
      exact hp
  · intro hev
    simp only [StreamProcessor.enter] at hev ⊢
    split at hev
    · cases hev
    · have := h.streamsStopEvent hev
      omega

theorem Phased.releaseStream (h : s.Phased) (hs : s.Sound) (ho : s.owned o) : (s.releaseStream o).Phased := by
  have hpos := hs.activeCnt_pos ho
  rw [releaseStream_eq]
  refine h.of_busy hpos rfl rfl (h.busy hpos) ?_
  intro hev
  dsimp only at hev ⊢
  split at hev
  · assumption
  · have := h.streamsStopEvent hev
    omega

theorem Phased.deliver (h : s.Phased) (hr : s.reader = .reading p) (q : Packet) : (s.deliver o q).Phased := by
  have hp := h.phaseOk
  unfold PhaseOk at hp
  rw [hr] at hp
  exact ⟨hp, h.streamsStopEvent⟩

/-- **The processor may be told to stop at any time.** -/
theorem Phased.stop (h : s.Phased) : { s with state := .stopInitiated }.Phased := by
  refine ⟨?_, h.streamsStopEvent⟩
  have hp := h.phaseOk
  unfold PhaseOk at hp ⊢
  dsimp only
  split at hp
  · exact ⟨by simp, hp.2⟩
  · exact ⟨by simp, hp.2⟩
  · exact ⟨by simp, hp.2⟩
  · exact ⟨by simp, hp.2⟩
  · exact ⟨rfl, hp.2⟩
  · exact ⟨rfl, hp.2⟩
  · exact ⟨rfl, hp.2⟩
  · exact ⟨rfl, hp.2⟩

theorem stopAsync_eq (h : s.state ≠ .stopped) : s.stopAsync = { s with state := .stopInitiated } := by
  cases hst : s.state <;> simp_all [stopAsync]

/-- **While a stream is active the processor is not stopped.** -/
theorem Phased.state_ne_stopped (h : s.Phased) (hcnt : 0 < s.activeCnt) : s.state ≠ .stopped := by
  have hp := h.phaseOk
  unfold PhaseOk Quiet at hp
  intro hst
  cases hr : s.reader <;> simp_all

/-- **In `STATE_WORKING` the reader loops**, or has yet to start. -/
theorem Phased.looping (h : s.Phased) (hst : s.state = .working) (hne : s.reader ≠ .starting) :
    s.reader = .acquiring ∨ ∃ p, s.reader = .reading p := by
  have hp := h.phaseOk
  unfold PhaseOk at hp
  cases hr : s.reader <;> simp_all

/-- **In `STATE_STOPPED` nothing runs.** -/
theorem Phased.quiet (h : s.Phased) (hst : s.state = .stopped) : s.reader = .stopped ∧ s.Quiet := by
  have hp := h.phaseOk
  unfold PhaseOk at hp
  cases hr : s.reader <;> simp_all

end StreamProcessor
end Mrpc
