import MultiplexingRpc.Phases
/-!
# ClientStreamProcessor — requests over one connection at a time (`mrpc_client_stream_processor.c`)

Fibers make request streams with `createRequestStream`.  A stream comes from a pool of `maxRequestStreamsCnt`; when all
of them are in use the caller waits inside `ff_pool_acquire_entry`, after it has seen the state `STATE_WORKING`, and
goes on whenever some stream is released.  The `n`-th stream the pool makes has the request id `n` for good: ids come
from a bitmap of the pool's size, and streams are deleted only with the processor.  Which idle stream the pool hands out
is left open.
-/
namespace Mrpc

/-- `struct mrpc_client_stream_processor`; `waiters` callers wait for a request stream. -/
structure ClientStreamProcessor where
  core : StreamProcessor
  waiters : Nat

namespace ClientStreamProcessor

open StreamProcessor (Event Turn)

/-- What may happen next.  `createRequestStream o`: a fiber asks for a stream, and gets `o` if the pool has one;
`wake o`: a waiting fiber gets `o`; `receive f`: the reader gets a packet from the connection. -/
inductive Action where
  | event (e : Event)
  | processStream
  | createRequestStream (o : StreamNo)
  | wake (o : StreamNo)
  | receive (f : Frame)
  | deleteRequestStream (o : StreamNo)
  | stopAsync
  deriving DecidableEq, Repr

/-- `mrpc_client_stream_processor_create`. -/
def create : ClientStreamProcessor := ⟨StreamProcessor.create, 0⟩

/-- `mrpc_client_stream_processor_process_stream` up to its loop, or all of it if told to stop before it began. -/
def processStream (c : ClientStreamProcessor) : Option ClientStreamProcessor :=
  match c.core.reader, c.core.state with
  | .stopped, .stopInitiated => some { c with core := { c.core with state := .stopped } }
  | .stopped, .stopped =>
    some { c with core := { c.core with
      state := .working, writer := .getting, streamsStopEvent := true, reader := .acquiring } }
  | _, _ => none

/-- `acquire_request_stream`, once the pool handed out `o`. -/
def enterStream (c : ClientStreamProcessor) (o : StreamNo) : StreamProcessor := c.core.enter (c.core.requestIds o) o

/-- `mrpc_client_stream_processor_create_request_stream`. -/
def createRequestStream (c : ClientStreamProcessor) (o : StreamNo) : Option ClientStreamProcessor :=
  if c.core.state = .working then
    if c.core.owned o then
      if ∀ o, c.core.owned o then some { c with waiters := c.waiters + 1 } else none
    else some { c with core := c.enterStream o }
  else some c

def wake (c : ClientStreamProcessor) (o : StreamNo) : Option ClientStreamProcessor :=
  if 0 < c.waiters ∧ ¬ c.core.owned o then some { core := c.enterStream o, waiters := c.waiters - 1 } else none

/-- The loop of `mrpc_client_stream_processor_process_stream` with a packet of the connection. -/
def receive (c : ClientStreamProcessor) (f : Frame) : Option ClientStreamProcessor :=
  match c.core.reader with
  | .reading p =>
    if f.body.length ≤ maxPacketSize then
      match c.core.active f.requestId with
      | some o => some { c with core := c.core.deliver o (p.ofFrame f) }
      | none => some { c with core := c.core.abandon p }
    else none
  | _ => none

/-- `delete_request_stream_wrapper`. -/
def deleteRequestStream (c : ClientStreamProcessor) (o : StreamNo) : Option ClientStreamProcessor :=
  if c.core.owned o ∧ c.core.fibers o = .running then some { c with core := c.core.releaseStream o } else none

/-- `mrpc_client_stream_processor_stop_async`. -/
def stopAsync (c : ClientStreamProcessor) : ClientStreamProcessor :=
  { c with core := { c.core with state := .stopInitiated } }

def step (c : ClientStreamProcessor) : Action → Option ClientStreamProcessor
  | .event e => (c.core.event e).map fun core => { c with core := core }
  | .processStream => c.processStream
  | .createRequestStream o => c.createRequestStream o
  | .wake o => c.wake o
  | .receive f => c.receive f
  | .deleteRequestStream o => c.deleteRequestStream o
  | .stopAsync => some c.stopAsync

/-! ## What a step does -/

variable {c c' : ClientStreamProcessor}

/-- The outcome of every step, with what has to hold before it. -/
inductive Outcome (c : ClientStreamProcessor) : Action → ClientStreamProcessor → Prop where
  | event {e core} (ht : Turn c.core e core) : Outcome c (.event e) { c with core := core }
  | processNothing (hr : c.core.reader = .stopped) (hs : c.core.state = .stopInitiated) :
    Outcome c .processStream { c with core := { c.core with state := .stopped } }
  | process (hr : c.core.reader = .stopped) (hs : c.core.state = .stopped) :
    Outcome c .processStream { c with core := { c.core with
      state := .working, writer := .getting, streamsStopEvent := true, reader := .acquiring } }
  | refused {o} (hs : c.core.state ≠ .working) : Outcome c (.createRequestStream o) c
  | created {o} (hs : c.core.state = .working) (ho : ¬ c.core.owned o) :
    Outcome c (.createRequestStream o) { c with core := c.enterStream o }
  | waits {o} (hs : c.core.state = .working) (hall : ∀ o, c.core.owned o) :
    Outcome c (.createRequestStream o) { c with waiters := c.waiters + 1 }
  | woken {o} (hw : 0 < c.waiters) (ho : ¬ c.core.owned o) :
    Outcome c (.wake o) { core := c.enterStream o, waiters := c.waiters - 1 }
  | delivered {f p o} (hr : c.core.reader = .reading p) (hslot : c.core.active f.requestId = some o) :
    Outcome c (.receive f) { c with core := c.core.deliver o (p.ofFrame f) }
  | unexpected {f p} (hr : c.core.reader = .reading p) (hslot : c.core.active f.requestId = none) :
    Outcome c (.receive f) { c with core := c.core.abandon p }
  | deleted {o} (ho : c.core.owned o) (hf : c.core.fibers o = .running) :
    Outcome c (.deleteRequestStream o) { c with core := c.core.releaseStream o }
  | stopAsync : Outcome c .stopAsync c.stopAsync

theorem outcome_of_step {a : Action} (h : c.step a = some c') : Outcome c a c' := by
  cases a with
  | event e =>
    obtain ⟨core, hcore, rfl⟩ := Option.map_eq_some_iff.1 h
    exact .event (StreamProcessor.turn_of_event hcore)
  | processStream =>
    simp only [step, processStream] at h
    split at h
    · rename_i hr hs
      cases h
      exact .processNothing hr hs
    · rename_i hr hs
      cases h
      exact .process hr hs
    · cases h
  | createRequestStream o =>
    simp only [step, createRequestStream] at h
    split at h
    · rename_i hs
      split at h
      · split at h
        · rename_i hall
          cases h
          exact .waits hs hall
        · cases h
      · rename_i ho
        cases h
        exact .created hs ho
    · rename_i hs
      cases h
      exact .refused hs
  | wake o =>
    simp only [step, wake] at h
    split at h
    · rename_i hg
      cases h
      exact .woken hg.1 hg.2
    · cases h
  | receive f =>
    simp only [step, receive] at h
    split at h
    · rename_i p hr
      split at h
      · split at h
        · rename_i o hslot
          cases h
          exact .delivered hr hslot
        · rename_i hslot
          cases h
          exact .unexpected hr hslot
      · cases h
    · cases h
  | deleteRequestStream o =>
    simp only [step, deleteRequestStream] at h
    split at h
    · rename_i hg
      cases h
      exact .deleted hg.1 hg.2
    · cases h
  | stopAsync =>
    cases h
    exact .stopAsync

/-! ## The table of active streams -/

variable {o : StreamNo}

/-- What holds after every run. -/
structure Sound (c : ClientStreamProcessor) : Prop where
  core : c.core.Sound
  requestIds : ∀ o, c.core.requestIds o = o

theorem sound_create : create.Sound := ⟨StreamProcessor.sound_create, fun _ => rfl⟩

theorem Sound.owned_iff (h : c.Sound) : c.core.owned o ↔ c.core.active o = some o := by
  unfold StreamProcessor.owned
  rw [h.requestIds]

/-- **A slot holds the stream of its own number, or nothing.** -/
theorem Sound.eq_of_active (h : c.Sound) {r : RequestId} (ha : c.core.active r = some o) : o = r :=
  (h.requestIds o).symm.trans (h.core.requestIds r o ha)

theorem Sound.slot_of_not_owned (h : c.Sound) (ho : ¬ c.core.owned o) : c.core.active o = none := by
  cases ha : c.core.active o with
  | none => rfl
  | some o' =>
    have := h.eq_of_active ha
    subst this
    exact absurd (h.owned_iff.2 ha) ho

theorem Sound.enterStream (h : c.Sound) (ho : ¬ c.core.owned o) :
    (c.enterStream o).Sound ∧ ∀ i, (c.enterStream o).requestIds i = i := by
  have hfree : ∀ r, c.core.active r ≠ some o := fun r ha => by
    have := h.eq_of_active ha
    subst this
    exact ho (h.owned_iff.2 ha)
  unfold ClientStreamProcessor.enterStream
  refine ⟨h.core.enter hfree ?_, fun i => ?_⟩
  · rw [h.requestIds]
    exact h.slot_of_not_owned ho
  · by_cases hi : i = o
    · subst hi
      simp [StreamProcessor.enter, h.requestIds]
    · simp [StreamProcessor.enter, h.requestIds, hi]

theorem Sound.step {a : Action} (h : c.Sound) (hs : c.step a = some c') : c'.Sound := by
  cases outcome_of_step hs with
  | event ht =>
    refine ⟨h.core.turn ht, fun o => ?_⟩
    rw [(ht.table h.core.fiberOk).2.1]
    exact h.requestIds o
  | processNothing hr hst => exact ⟨h.core.setState _, h.requestIds⟩
  | process hr hst => exact ⟨h.core.connect (Or.inl hr) _, h.requestIds⟩
  | refused hst => exact h
  | created hst ho => exact ⟨(h.enterStream ho).1, (h.enterStream ho).2⟩
  | waits hst hall => exact ⟨h.core, h.requestIds⟩
  | woken hw ho => exact ⟨(h.enterStream ho).1, (h.enterStream ho).2⟩
  | delivered hr hslot => exact ⟨h.core.deliver hr _, h.requestIds⟩
  | unexpected hr hslot => exact ⟨h.core.turn (.readerFail hr), h.requestIds⟩
  | deleted ho hf =>
    refine ⟨h.core.releaseStream ho hf, fun i => ?_⟩
    rw [StreamProcessor.releaseStream_eq]
    exact h.requestIds i
  | stopAsync => exact ⟨h.core.setState _, h.requestIds⟩

/-! ## Stopping -/

/-- The step takes the processor out of `STATE_WORKING`. -/
def LeavesWorking (c : ClientStreamProcessor) (a : Action) : Prop :=
  c.core.state = .working ∧ ∃ c', c.step a = some c' ∧ c'.core.state ≠ .working

/-- Nobody waits for a request stream when the processor is told to stop. -/
def Unwaited (c : ClientStreamProcessor) (a : Action) : Prop := LeavesWorking c a → c.waiters = 0

/-- What holds after every run in which nobody waits when the processor is told to stop. -/
structure Orderly (c : ClientStreamProcessor) : Prop where
  sound : c.Sound
  phased : c.core.Phased
  starting : c.core.reader ≠ .starting
  waiters : 0 < c.waiters → c.core.state = .working

theorem orderly_create : create.Orderly :=
  ⟨sound_create, StreamProcessor.phased_create, by simp [create, StreamProcessor.create], fun h => absurd h (by decide)⟩

theorem Orderly.looping (h : c.Orderly) (hst : c.core.state = .working) :
    c.core.reader = .acquiring ∨ ∃ p, c.core.reader = .reading p := h.phased.looping hst h.starting

/-- **The number of waiting callers grows only while the processor works.** -/
theorem waiters_step {a : Action} (h : c.step a = some c') :
    c'.waiters ≤ c.waiters ∨ c'.core.state = .working := by
  cases outcome_of_step h with
  | waits hst hall => exact Or.inr hst
  | woken hw ho => exact Or.inl (Nat.sub_le _ _)
  | _ => exact Or.inl (Nat.le_refl _)

theorem Turn_reader_ne_starting {s s' : StreamProcessor} {e : Event} (hs : s.Sound) (ht : Turn s e s')
    (h : s.reader ≠ .starting) : s'.reader ≠ .starting := by
  cases ho : e.owner with
  | some o =>
    obtain ⟨-, ps, f, pool, queue, -, -, rfl⟩ := ht.ownerFrame hs.fiberOk ho
    exact h
  | none =>
    cases ht.system ho with
    | writerGet | writerSkip | writerEnd | writeOk | writeFail | flushOk | flushFail => exact h
    | _ => simp [StreamProcessor.abandon]

theorem Orderly.step {a : Action} (h : c.Orderly) (hu : Unwaited c a) (hs : c.step a = some c') : c'.Orderly := by
  have hwaiters : 0 < c'.waiters → c'.core.state = .working := fun hpos => by
    rcases waiters_step hs with hle | hst
    · by_contra hne
      have := hu ⟨h.waiters (by omega), c', hs, hne⟩
      omega
    · exact hst
  refine ⟨h.sound.step hs, ?_, ?_, hwaiters⟩
  · cases outcome_of_step hs with
    | event ht => exact h.phased.turn h.sound.core ht
    | processNothing hr hst =>
      have hp := h.phased.phaseOk
      unfold StreamProcessor.PhaseOk at hp
      rw [hr] at hp
      refine ⟨?_, h.phased.streamsStopEvent⟩
      unfold StreamProcessor.PhaseOk
      rw [hr]
      exact ⟨by simp, hp.2⟩
    | process hr hst =>
      obtain ⟨-, -, hq, hev, hcnt⟩ := h.phased.quiet hst
      exact ⟨⟨by simp, by simp, by simp [hq], hev⟩, fun _ => hcnt⟩
    | refused hst => exact h.phased
    | created hst ho => exact h.phased.enter (h.looping hst)
    | waits hst hall => exact h.phased
    | woken hw ho => exact h.phased.enter (h.looping (h.waiters hw))
    | delivered hr hslot => exact h.phased.deliver hr _
    | unexpected hr hslot => exact h.phased.turn h.sound.core (.readerFail hr)
    | deleted ho hf => exact h.phased.releaseStream h.sound.core ho
    | stopAsync => exact h.phased.stop
  · cases outcome_of_step hs with
    | event ht => exact Turn_reader_ne_starting h.sound.core ht h.starting
    | process hr hst => simp
    | delivered hr hslot => simp [StreamProcessor.deliver]
    | unexpected hr hslot => simp [StreamProcessor.abandon]
    | deleted ho hf =>
      rw [StreamProcessor.releaseStream_eq]
      exact h.starting
    | _ => exact h.starting

/-- The reader has seen the last request stream go and the next connection has not begun. -/
def PastWait (c : ClientStreamProcessor) : Prop := c.core.reader = .waitingWriter ∨ c.core.reader = .stopped

/-- What a step from `c` to `c'` must not break: a stream is entered in `STATE_WORKING` only; once the reader is past its
wait there is no active stream until the next `STATE_WORKING`, and nothing is put behind the `NULL`. -/
structure StopSafe (c c' : ClientStreamProcessor) : Prop where
  entered : ∀ r o, c.core.active r = none → c'.core.active r = some o → c.core.state = .working
  none_active : c'.PastWait → c'.core.activeCnt = 0 ∧ ∀ r, c'.core.active r = none
  until_working : c.PastWait → c'.PastWait ∨ c'.core.state = .working
  after_null : c.PastWait → c'.core.writerQueue <:+ c.core.writerQueue

theorem Orderly.activeCnt_eq_zero (h : c.Orderly) (hp : c.PastWait) : c.core.activeCnt = 0 := by
  have hph := h.phased.phaseOk
  unfold StreamProcessor.PhaseOk at hph
  rcases hp with hr | hr
  · rw [hr] at hph
    exact hph.2.1
  · rw [hr] at hph
    exact hph.2.2.2.2

/-- **A shared turn past the wait** is the writer's, or the reader's last one. -/
theorem Orderly.turn_pastWait (h : c.Orderly) (hp : c.PastWait) {e : Event} {core : StreamProcessor}
    (ht : Turn c.core e core) :
    (core.reader = .waitingWriter ∨ core.reader = .stopped) ∧ core.writerQueue <:+ c.core.writerQueue := by
  have hcnt := h.activeCnt_eq_zero hp
  cases ho : e.owner with
  | some o =>
    have := h.sound.core.activeCnt_pos (ht.ownerFrame h.sound.core.fiberOk ho).1
    omega
  | none =>
    have hreader : ∀ {r : Reader}, c.core.reader = r → r = .waitingWriter ∨ r = .stopped := fun hr => hr ▸ hp
    cases ht.system ho with
    | readerWriterStopped hr he => exact ⟨Or.inr rfl, List.suffix_refl _⟩
    | writerGet hw hq => exact ⟨hp, hq ▸ List.suffix_cons _ _⟩
    | writerSkip hw hq => exact ⟨hp, hq ▸ List.suffix_cons _ _⟩
    | writerEnd hw hq => exact ⟨hp, hq ▸ List.suffix_cons _ _⟩
    | writeOk | writeFail | flushOk | flushFail => exact ⟨hp, List.suffix_refl _⟩
    | readerAcquire hr | readerPass hr | readerDisconnect hr | readerBlock hr | readerDisconnectLate hr
    | readerLoopEnd hr | readerStreamsStopped hr | readerFail hr =>
      have := hreader hr
      simp at this

/-- **The stop protocol is kept by every run in which nobody waits for a request stream when the processor is told to
stop.** -/
theorem stopSafe_of_unwaited (as : List Action) (a : Action) (c c' : ClientStreamProcessor)
    (hu : Run.Meets step Unwaited create (as ++ [a])) (hrun : Run.exec step create as = some c)
    (hs : c.step a = some c') : StopSafe c c' := by
  obtain ⟨hmeets, hlast⟩ := Run.meets_append as hrun hu
  have h : c.Orderly := Run.invariant (fun s a s' hs hC hstep => hs.step hC hstep) as orderly_create hmeets hrun
  have h' : c'.Orderly := h.step hlast.1 hs
  refine ⟨fun r o hnone hsome => ?_, fun hp => ?_, fun hp => ?_, fun hp => ?_⟩
  · cases outcome_of_step hs with
    | created hst ho => exact hst
    | woken hw ho => exact h.waiters hw
    | event ht =>
      rw [(ht.table h.sound.core.fiberOk).1, hnone] at hsome
      cases hsome
    | @deleted o' ho hf =>
      rw [StreamProcessor.releaseStream_eq] at hsome
      dsimp only at hsome
      by_cases hr : r = c.core.requestIds o'
      · subst hr
        simp at hsome
      · rw [Function.update_of_ne hr, hnone] at hsome
        cases hsome
    | _ => exact absurd (hnone.symm.trans hsome) (by simp)
  · exact ⟨h'.activeCnt_eq_zero hp, h'.sound.core.active_eq_none (h'.activeCnt_eq_zero hp)⟩
  · cases outcome_of_step hs with
    | event ht => exact Or.inl (h.turn_pastWait hp ht).1
    | process hr hst => exact Or.inr rfl
    | created hst ho => exact Or.inr hst
    | woken hw ho => exact Or.inr (h.waiters hw)
    | deleted ho hf =>
      have := h.sound.core.activeCnt_pos ho
      have := h.activeCnt_eq_zero hp
      omega
    | delivered hr hslot => rcases hp with hp | hp <;> simp [hr] at hp
    | unexpected hr hslot => rcases hp with hp | hp <;> simp [hr] at hp
    | _ => exact Or.inl hp
  · cases outcome_of_step hs with
    | event ht => exact (h.turn_pastWait hp ht).2
    | deleted ho hf => rw [StreamProcessor.releaseStream_eq]
    | _ => exact List.suffix_refl _

/-- The processor is told to stop with one stream active and nobody waiting. -/
theorem stopSafe_create_stop : ∃ c c', Run.Meets step Unwaited create [.processStream, .createRequestStream 0, .stopAsync] ∧
    Run.exec step create [.processStream, .createRequestStream 0] = some c ∧ c.step .stopAsync = some c' ∧
    StopSafe c c' := by
  have hmeets : Run.Meets step Unwaited create [.processStream, .createRequestStream 0, .stopAsync] := by
    refine ⟨fun _ => rfl, fun s hs => ⟨fun _ => ?_, fun t ht => ⟨fun _ => ?_, fun _ _ => trivial⟩⟩⟩
    · cases hs
      rfl
    · cases hs
      cases ht
      rfl
  refine ⟨_, _, hmeets, rfl, rfl, ?_⟩
  exact stopSafe_of_unwaited [.processStream, .createRequestStream 0] .stopAsync _ _ hmeets rfl rfl

/-- A connection, and `k` calls that each make a request stream. -/
def creates (k : Nat) : List Action := .processStream :: ((List.finRange 256).take k).map .createRequestStream

/-- **`k` calls in a row get the streams `0` to `k - 1`.** -/
theorem exec_creates : ∀ k ≤ 256, ∃ c, Run.exec step create (creates k) = some c ∧
    c.core.state = .working ∧ c.waiters = 0 ∧ c.Sound ∧ (∀ o, c.core.fibers o = .running) ∧
    ∀ o : StreamNo, c.core.active o = if o.val < k then some o else none
  | 0, _ => ⟨_, rfl, rfl, rfl, sound_create.step (a := .processStream) rfl, fun _ => rfl, fun _ => rfl⟩
  | k + 1, hk => by
    obtain ⟨c, hrun, hst, hw, hsound, hfib, hact⟩ := exec_creates k (by omega)
    have hnot : ¬ c.core.owned ⟨k, hk⟩ := by
      rw [hsound.owned_iff, hact]
      simp
    have hstep : c.step (.createRequestStream ⟨k, hk⟩) = some { c with core := c.enterStream ⟨k, hk⟩ } := by
      simp only [step, createRequestStream]
      rw [if_pos hst, if_neg hnot]
    refine ⟨{ c with core := c.enterStream ⟨k, hk⟩ }, ?_, hst, hw, hsound.step hstep, fun o => ?_, fun o => ?_⟩
    · have htake : (List.finRange 256).take (k + 1) = (List.finRange 256).take k ++ [⟨k, hk⟩] := by
        rw [List.take_succ_eq_append_getElem (by simpa using hk)]
        simp
      rw [creates, htake, List.map_append, ← List.cons_append, ← creates, Run.exec_append_of _ _ hrun]
      exact Run.exec_cons_of [] hstep
    · by_cases ho : o = ⟨k, hk⟩
      · subst ho
        simp [enterStream, StreamProcessor.enter]
      · simpa [enterStream, StreamProcessor.enter, ho] using hfib o
    · by_cases ho : o = ⟨k, hk⟩
      · subst ho
        simp [enterStream, StreamProcessor.enter, hsound.requestIds]
      · have hne : o.val ≠ k := fun h => ho (Fin.ext h)
        have hlt : o.val < k + 1 ↔ o.val < k := by omega
        simp [enterStream, StreamProcessor.enter, hsound.requestIds, ho, hact, hlt]

/-- A 257th caller waits; the processor is told to stop; one of the 256 streams is deleted and the caller takes it. -/
theorem not_stopSafe_waiter : ¬ ∀ (as : List Action) (a : Action) (c c' : ClientStreamProcessor),
    Run.exec step create as = some c → c.step a = some c' → StopSafe c c' := by
  intro h
  obtain ⟨c, hrun, hst, hw, hsound, hfib, hact⟩ := exec_creates 256 (Nat.le_refl _)
  have howned : ∀ o, c.core.owned o := fun o => by
    rw [hsound.owned_iff, hact, if_pos o.isLt]
  have hwait : c.step (.createRequestStream 0) = some { c with waiters := 1 } := by
    simp only [step, createRequestStream]
    rw [if_pos hst, if_pos (howned 0), if_pos howned, hw]
  let c₂ : ClientStreamProcessor := stopAsync { c with waiters := 1 }
  have hdelete : c₂.step (.deleteRequestStream 0) = some { c₂ with core := c₂.core.releaseStream 0 } := by
    simp only [step, deleteRequestStream]
    exact if_pos ⟨howned 0, hfib 0⟩
  let c₃ : ClientStreamProcessor := { c₂ with core := c₂.core.releaseStream 0 }
  have hslot : c₃.core.active 0 = none := by
    show (c₂.core.releaseStream 0).active 0 = none
    rw [StreamProcessor.releaseStream_eq]
    simp [c₂, stopAsync, hsound.requestIds]
  have hid : c₃.core.requestIds 0 = 0 := by
    show (c₂.core.releaseStream 0).requestIds 0 = 0
    rw [StreamProcessor.releaseStream_eq]
    exact hsound.requestIds 0
  have hwake : c₃.step (.wake 0) = some { core := c₃.enterStream 0, waiters := 0 } := by
    simp only [step, wake]
    refine if_pos ⟨Nat.one_pos, ?_⟩
    simp [StreamProcessor.owned, hid, hslot]
  have hall : Run.exec step create (creates 256 ++ [.createRequestStream 0, .stopAsync, .deleteRequestStream 0]) = some c₃ := by
    rw [Run.exec_append_of _ _ hrun, Run.exec_cons_of _ hwait, Run.exec_cons_of _ (show _ = some c₂ from rfl),
      Run.exec_cons_of _ hdelete]
    rfl
  have hworking := (h _ _ _ _ hall hwake).entered 0 0 hslot (by simp [enterStream, StreamProcessor.enter, hid])
  have hstop : c₃.core.state = .stopInitiated := by
    show (c₂.core.releaseStream 0).state = .stopInitiated
    rw [StreamProcessor.releaseStream_eq]
    rfl
  rw [hstop] at hworking
  cases hworking

end ClientStreamProcessor
end Mrpc
