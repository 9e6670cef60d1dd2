import MultiplexingRpc.Bitmap
import MultiplexingRpc.Connection
/-!
# RequestIds — the table of active request streams

The table, its counter, the event of the last release and the request ids of streams and packets are kept in step on
both sides, whatever the peer sends.  On the client the ids come from a bitmap: `PooledClient` runs the client with the
pool of request streams that makes them one by one.
-/
namespace Mrpc

namespace StreamProcessor

variable {s s' : StreamProcessor} {o : StreamNo} {r : RequestId} {p : Packet}

/-! ## What an owner puts into the writer queue -/

/-- The owner of `o` took a turn, and whatever it filled carries the stream's request id. -/
def Emits (s : StreamProcessor) (o : StreamNo) (s' : StreamProcessor) : Prop :=
  ∃ f ps pool queue, s' = s.ownerStep o f ps pool queue ∧ ps.requestId = (s.streams o).requestId ∧
    (∀ p ∈ ps.currentWritePacket, p.requestId = (s.streams o).requestId) ∧
    ∀ p ∈ queue, p.requestId = (s.streams o).requestId

theorem emits_fillWritePacket (hid : p.requestId = (s.streams o).requestId) (buf : List UInt8) :
    s.Emits o (s.fillWritePacket o p buf) := by
  rcases s.fillWritePacket_eq o p buf with ⟨-, heq⟩ | ⟨-, heq⟩
  · refine ⟨_, _, _, _, heq, rfl, fun q hq => ?_, nofun⟩
    cases hq
    exact hid
  · refine ⟨_, _, _, _, heq, rfl, nofun, fun q hq => ?_⟩
    rw [List.mem_singleton.1 hq]
    exact hid

theorem emits_acquireWritePacket (hn : s.Neat) (hw : (s.streams o).currentWritePacket = none) (type : PacketType)
    (rest : List UInt8) : s.Emits o (s.acquireWritePacket o type rest) := by
  rcases acquireWritePacket_eq hn o type rest with ⟨-, heq⟩ | ⟨p, pool, -, heq⟩
  · refine ⟨_, _, _, _, heq, rfl, fun p hp => ?_, nofun⟩
    rw [hw] at hp
    cases hp
  · rw [heq]
    exact emits_fillWritePacket (s := { s with packetsPool := pool }) rfl rest

/-- The streams carry the ids of their slots, down to the packet being filled; one without an owner fills none. -/
structure Marked (s : StreamProcessor) : Prop where
  ids : ∀ o, s.owned o → (s.streams o).requestId = s.requestIds o
  current : ∀ o, s.owned o → ∀ p ∈ (s.streams o).currentWritePacket, p.requestId = s.requestIds o
  idle : ∀ o, ¬ s.owned o → (s.streams o).currentWritePacket = none

theorem Marked.emits (h : s.Marked) (hs : s.Sound) (hn : s.Neat) {e : Event} (ht : Turn s e s') (hown : e.owner = some o) :
    s.owned o ∧ s.Emits o s' := by
  have hread : e.readsOn = some o → s.owned o ∧ s.Emits o s' := fun hr => by
    obtain ⟨ho, current, queue, f, pool, -, rfl⟩ := ht.readFrame hr
    refine ⟨ho, f, { s.streams o with readerQueue := queue, currentReadPacket := current }, pool, [], ?_, rfl, ?_, nofun⟩
    · simp [ownerStep]
    · rw [h.ids o ho]
      exact h.current o ho
  cases ht with
  | read | get | timeout => exact hread hown
  | writeFirst ho hf hw =>
    cases hown
    exact ⟨ho, emits_acquireWritePacket hn hw _ _⟩
  | writeMore ho hf hw hlast =>
    cases hown
    exact ⟨ho, emits_fillWritePacket ((h.current _ ho _ hw).trans (h.ids _ ho).symm) _⟩
  | @flush _ p ho hf hw hlast =>
    cases hown
    have hid : p.requestId = (s.streams o).requestId := (h.current _ ho _ hw).trans (h.ids _ ho).symm
    have hput : ((s.setStream o { s.streams o with currentWritePacket := none }).putPacket (lastPacket p)).Neat :=
      (hn.setStream (hn.streams o).noWritePacket).putPacket (written_lastPacket ((hn.streams o).write p hw).1)
    obtain ⟨f, ps, pool, queue, heq, hps, hcurrent, hqueue⟩ :=
      emits_acquireWritePacket (o := o) hput (by simp [putPacket, setStream]) .end_ []
    have hsame : (((s.setStream o { s.streams o with currentWritePacket := none }).putPacket (lastPacket p)).streams
        o).requestId = (s.streams o).requestId := by simp [putPacket, setStream]
    rw [hsame] at hps hcurrent hqueue
    refine ⟨ho, f, ps, pool, lastPacket p :: queue, ?_, hps, hcurrent, fun q hq => ?_⟩
    · rw [heq]
      simp [ownerStep, putPacket, setStream]
    · rcases List.mem_cons.1 hq with rfl | hq
      · exact hid
      · exact hqueue q hq
  | @acquire _ type rest ho hf hpool =>
    cases hown
    have hw := hs.fiberOk o
    rw [hf] at hw
    exact ⟨ho, emits_acquireWritePacket hn hw _ _⟩
  | _ => cases hown

/-! ## The marks in every step -/

/-- The table, the ids and what the streams write stay as they are. -/
theorem Marked.congr (h : s.Marked) (hactive : s'.active = s.active) (hids : s'.requestIds = s.requestIds)
    (hid : ∀ i, (s'.streams i).requestId = (s.streams i).requestId)
    (hcurrent : ∀ i, (s'.streams i).currentWritePacket = (s.streams i).currentWritePacket) : s'.Marked := by
  have howned : ∀ i, s'.owned i ↔ s.owned i := fun i => by simp only [owned, hactive, hids]
  refine ⟨fun i hi => ?_, fun i hi => ?_, fun i hi => ?_⟩
  · rw [hid, hids]
    exact h.ids i ((howned i).1 hi)
  · rw [hcurrent, hids]
    exact h.current i ((howned i).1 hi)
  · rw [hcurrent]
    exact h.idle i (mt (howned i).2 hi)

theorem pushPacket_requestId (s : StreamProcessor) (o : StreamNo) (p : Packet) (i : StreamNo) :
    ((s.pushPacket o p).streams i).requestId = (s.streams i).requestId := by
  by_cases hi : i = o
  · subst hi
    simp [pushPacket, setStream, PacketStream.pushPacket]
  · simp [pushPacket, setStream, hi]

theorem Marked.pushPacket (h : s.Marked) (o : StreamNo) (p : Packet) : (s.pushPacket o p).Marked :=
  h.congr rfl rfl (pushPacket_requestId s o p) (pushPacket_currentWritePacket s o p)

theorem Marked.turn (h : s.Marked) (hs : s.Sound) (hn : s.Neat) {e : Event} (ht : Turn s e s') : s'.Marked := by
  cases hown : e.owner with
  | some o =>
    obtain ⟨ho, f, ps, pool, queue, rfl, hid, hcurrent, -⟩ := h.emits hs hn ht hown
    rw [h.ids o ho] at hid hcurrent
    have hself : (s.ownerStep o f ps pool queue).streams o = ps := Function.update_self ..
    have hother : ∀ {i}, i ≠ o → (s.ownerStep o f ps pool queue).streams i = s.streams i :=
      fun hio => Function.update_of_ne hio _ _
    refine ⟨fun i hi => ?_, fun i hi => ?_, fun i hi => ?_⟩
    · by_cases hio : i = o
      · rw [hio, hself]
        exact hid
      · rw [hother hio]
        exact h.ids i hi
    · by_cases hio : i = o
      · rw [hio, hself]
        exact hcurrent
      · rw [hother hio]
        exact h.current i hi
    · have hio : i ≠ o := fun hio => hi (hio ▸ ho)
      rw [hother hio]
      exact h.idle i hi
  | none =>
    cases ht.system hown with
    | readerDisconnect | readerDisconnectLate =>
      exact h.congr rfl rfl (pushPacket_requestId s _ _) (pushPacket_currentWritePacket s _ _)
    | _ => exact h.congr rfl rfl (fun _ => rfl) (fun _ => rfl)

theorem Marked.enter (h : s.Marked) (hslot : s.active r = none) (ho : ¬ s.owned o) : (s.enter r o).Marked := by
  refine ⟨fun i hi => ?_, fun i hi => ?_, fun i hi => ?_⟩
  · by_cases hio : i = o
    · subst hio
      simp [StreamProcessor.enter, PacketStream.initialise]
    · rw [owned_enter hslot hio] at hi
      simpa [StreamProcessor.enter, hio] using h.ids i hi
  · by_cases hio : i = o
    · subst hio
      simp [StreamProcessor.enter, PacketStream.initialise, h.idle i ho]
    · rw [owned_enter hslot hio] at hi
      simpa [StreamProcessor.enter, hio] using h.current i hi
  · have hio : i ≠ o := fun hio => hi (hio ▸ owned_enter_self s r o)
    rw [owned_enter hslot hio] at hi
    simpa [StreamProcessor.enter, hio] using h.idle i hi

theorem Marked.releaseStream (h : s.Marked) (ho : s.owned o) : (s.releaseStream o).Marked := by
  have hnot : ¬ (s.releaseStream o).owned o := by
    rw [releaseStream_eq]
    simp [owned]
  have hids : (s.releaseStream o).requestIds = s.requestIds := by rw [releaseStream_eq]
  refine ⟨fun i hi => ?_, fun i hi => ?_, fun i hi => ?_⟩
  · have hio : i ≠ o := fun hio => hnot (hio ▸ hi)
    rw [owned_releaseStream ho hio] at hi
    rw [streams_releaseStream, Function.update_of_ne hio, hids]
    exact h.ids i hi
  · have hio : i ≠ o := fun hio => hnot (hio ▸ hi)
    rw [owned_releaseStream ho hio] at hi
    rw [streams_releaseStream, Function.update_of_ne hio, hids]
    exact h.current i hi
  · rw [streams_releaseStream]
    by_cases hio : i = o
    · subst hio
      rw [Function.update_self]
      rfl
    · rw [owned_releaseStream ho hio] at hi
      rw [Function.update_of_ne hio]
      exact h.idle i hi

theorem Marked.deliver (h : s.Marked) (o : StreamNo) (p : Packet) : (s.deliver o p).Marked :=
  (h.pushPacket o p).congr rfl rfl (fun _ => rfl) (fun _ => rfl)

theorem marked_create : create.Marked := ⟨nofun, nofun, fun _ _ => rfl⟩

/-! ## The event of the last release -/

/-- In `STATE_WORKING` the reader loops, or has yet to start; from its start on the event is set exactly when no stream
is active. -/
structure Signalled (s : StreamProcessor) : Prop where
  looping : s.state = .working → s.reader = .starting ∨ s.reader.listens = true
  event : s.state = .working → s.reader ≠ .starting → (s.streamsStopEvent = true ↔ s.activeCnt = 0)

theorem stopAsync_ne_working (s : StreamProcessor) : s.stopAsync.state ≠ .working := by
  unfold stopAsync
  dsimp only
  split
  · simp
  · assumption

theorem signalled_of_ne_working (h : s.state ≠ .working) : s.Signalled := ⟨fun hw => absurd hw h, fun hw => absurd hw h⟩

/-- A turn that moves at most the reader, within its loop. -/
theorem Signalled.congr (h : s.Signalled) (hstate : s'.state = s.state) (hevent : s'.streamsStopEvent = s.streamsStopEvent)
    (hcnt : s'.activeCnt = s.activeCnt) (hreader : s'.reader = s.reader ∨ (s.reader.listens ∧ s'.reader.listens)) :
    s'.Signalled := by
  rcases hreader with hreader | ⟨hl, hl'⟩
  · refine ⟨fun hw => ?_, fun hw hne => ?_⟩
    · rw [hreader]
      exact h.looping (hstate ▸ hw)
    · rw [hevent, hcnt]
      exact h.event (hstate ▸ hw) (hreader ▸ hne)
  · refine ⟨fun _ => Or.inr hl', fun hw _ => ?_⟩
    rw [hevent, hcnt]
    refine h.event (hstate ▸ hw) fun hr => ?_
    rw [hr] at hl
    cases hl

/-- The reader is not in its loop, so the state is another. -/
theorem Signalled.of_not_listens (h : s.Signalled) (hl : s.reader.listens = false) (hne : s.reader ≠ .starting)
    (hstate : s'.state = s.state) : s'.Signalled := by
  refine signalled_of_ne_working fun hw => ?_
  rcases h.looping (hstate ▸ hw) with hr | hr
  · exact hne hr
  · rw [hl] at hr
    cases hr

theorem Signalled.turn (h : s.Signalled) (hs : s.Sound) {e : Event} (ht : Turn s e s') : s'.Signalled := by
  cases hown : e.owner with
  | some o =>
    obtain ⟨-, ps, f, pool, queue, -, -, rfl⟩ := ht.ownerFrame hs.fiberOk hown
    exact h.congr rfl rfl rfl (Or.inl rfl)
  | none =>
    cases ht.system hown with
    | readerAcquire hr hp => exact h.congr rfl rfl rfl (Or.inr ⟨by rw [hr]; rfl, rfl⟩)
    | readerPass hr | readerDisconnect hr | readerBlock hr | readerDisconnectLate hr | readerLoopEnd hr
    | readerStreamsStopped hr =>
      exact h.of_not_listens (by rw [hr]; rfl) (by rw [hr]; simp) rfl
    | readerWriterStopped => exact signalled_of_ne_working (by simp)
    | readerFail | writeFail | flushFail => exact signalled_of_ne_working (stopAsync_ne_working _)
    | _ => exact h.congr rfl rfl rfl (Or.inl rfl)

theorem Signalled.enter (h : s.Signalled) (hne : s.reader ≠ .starting) (r : RequestId) (o : StreamNo) :
    (s.enter r o).Signalled := by
  refine ⟨h.looping, fun hw _ => ?_⟩
  have hev := h.event hw hne
  simp only [StreamProcessor.enter]
  split
  · simp
  · rename_i hcnt
    rw [hev]
    omega

theorem Signalled.releaseStream (h : s.Signalled) (o : StreamNo) : (s.releaseStream o).Signalled := by
  rw [releaseStream_eq]
  refine ⟨h.looping, fun hw hne => ?_⟩
  have hev := h.event hw hne
  dsimp only
  split
  · rename_i hcnt
    simp [hcnt]
  · rename_i hcnt
    rw [hev]
    omega

theorem Signalled.deliver (h : s.Signalled) (hr : s.reader.listens = true) (o : StreamNo) (p : Packet) :
    (s.deliver o p).Signalled := h.congr rfl rfl rfl (Or.inr ⟨hr, rfl⟩)

theorem signalled_create : create.Signalled := signalled_of_ne_working (by decide)

/-! ## The table -/

/-- The counter counts the slots in use, and a stream sits in the slot of its id alone, which every packet it puts into
the writer queue carries. -/
structure TableOk (s : StreamProcessor) : Prop where
  activeCnt : s.activeCnt = (Finset.univ.filter fun r => s.active r ≠ none).card
  activeCnt_le : s.activeCnt ≤ maxRequestStreamsCnt
  slot : ∀ r o, s.active r = some o →
    s.requestIds o = r ∧ (s.streams o).requestId = r ∧ ∀ r', s.active r' = some o → r' = r
  emits : ∀ r o e s', s.active r = some o → e.owner = some o → s.event e = some s' →
    ∃ queue : List Packet, s'.writerQueue = s.writerQueue ++ queue.map some ∧ ∀ p ∈ queue, p.requestId = r

theorem Marked.tableOk (h : s.Marked) (hs : s.Sound) (hn : s.Neat) : s.TableOk := by
  have hcnt : s.activeCnt = (Finset.univ.filter fun r => s.active r ≠ none).card := by
    rw [hs.activeCnt]
    refine congrArg Finset.card (Finset.filter_congr fun r _ => ?_)
    cases s.active r <;> simp
  refine ⟨hcnt, ?_, fun r o ha => ?_, fun r o e s' ha hown hev => ?_⟩
  · rw [hcnt]
    exact (Finset.card_le_univ _).trans_eq (Fintype.card_fin 256)
  · have hr := hs.requestIds r o ha
    refine ⟨hr, (h.ids o (hs.owned_of_active ha)).trans hr, fun r' ha' => ?_⟩
    rw [← hr, hs.requestIds r' o ha']
  · obtain ⟨ho, f, ps, pool, queue, rfl, -, -, hqueue⟩ := h.emits hs hn (turn_of_event hev) hown
    rw [h.ids o ho, hs.requestIds r o ha] at hqueue
    exact ⟨queue, rfl, hqueue⟩

end StreamProcessor

/-! ## The server -/

namespace ServerStreamProcessor

variable {s s' : StreamProcessor}

/-- What holds after every run. -/
structure Tabled (s : StreamProcessor) : Prop where
  sound : Sound s
  neat : s.Neat
  marked : s.Marked
  signalled : s.Signalled

theorem tabled_create : Tabled create :=
  ⟨sound_create, neat_create, ⟨nofun, nofun, fun _ _ => rfl⟩, StreamProcessor.signalled_of_ne_working (by decide)⟩

theorem Tabled.step {a : Action} (h : Tabled s) (hs : step s a = some s') : Tabled s' := by
  refine ⟨h.sound.step hs, neat_step h.neat hs, ?_, ?_⟩
  · cases outcome_of_step hs with
    | event ht => exact h.marked.turn h.sound.core h.neat ht
    | start | readerStart | stopAsync => exact h.marked.congr rfl rfl (fun _ => rfl) (fun _ => rfl)
    | begun hr hf hslot ho => exact (h.marked.enter hslot ho).deliver _ _
    | continued hr hf hslot => exact h.marked.deliver _ _
    | unexpected hr hf => exact h.marked.turn h.sound.core h.neat (.readerFail hr)
    | returned ho hf => exact h.marked.releaseStream ho
    | failed ho hf =>
      have hstop : s.stopAsync.Marked := h.marked.congr rfl rfl (fun _ => rfl) (fun _ => rfl)
      exact hstop.releaseStream ho
  · cases outcome_of_step hs with
    | event ht => exact h.signalled.turn h.sound.core ht
    | start => exact ⟨fun _ => Or.inl rfl, fun _ hne => absurd rfl hne⟩
    | readerStart hr =>
      have hp := h.sound.phased.phaseOk
      rw [StreamProcessor.PhaseOk, hr] at hp
      exact ⟨fun _ => Or.inr rfl, fun _ _ => ⟨fun _ => hp.2.2.2.2, fun _ => rfl⟩⟩
    | begun hr hf hslot ho =>
      exact (h.signalled.enter (by rw [hr]; simp) _ _).deliver (by simp [StreamProcessor.enter, hr, Reader.listens]) _ _
    | continued hr hf hslot => exact h.signalled.deliver (by rw [hr]; rfl) _ _
    | unexpected hr hf => exact h.signalled.turn h.sound.core (.readerFail hr)
    | returned ho hf => exact h.signalled.releaseStream _
    | failed ho hf =>
      exact (StreamProcessor.signalled_of_ne_working s.stopAsync_ne_working).releaseStream _
    | stopAsync hst => exact StreamProcessor.signalled_of_ne_working s.stopAsync_ne_working

theorem tabled_of_exec (as : List Action) (hrun : Run.exec step create as = some s) : Tabled s :=
  Run.invariant (P := Tabled) (fun _ _ _ h _ hs => h.step hs) as tabled_create (Run.meets_true _ _) hrun

end ServerStreamProcessor

/-! ## The client -/

namespace ClientStreamProcessor

variable {c c' : ClientStreamProcessor}

/-- What holds after every run. -/
structure Tabled (c : ClientStreamProcessor) : Prop where
  sound : c.Sound
  neat : c.core.Neat
  marked : c.core.Marked

theorem tabled_create : Tabled create := ⟨sound_create, StreamProcessor.neat_create, StreamProcessor.marked_create⟩

theorem Tabled.enterStream {o : StreamNo} (h : c.Tabled) (ho : ¬ c.core.owned o) : (c.enterStream o).Marked := by
  refine h.marked.enter ?_ ho
  rw [h.sound.requestIds]
  exact h.sound.slot_of_not_owned ho

theorem Tabled.step {a : Action} (h : c.Tabled) (hs : c.step a = some c') : c'.Tabled := by
  refine ⟨h.sound.step hs, neat_step h.neat hs, ?_⟩
  cases outcome_of_step hs with
  | event ht => exact h.marked.turn h.sound.core h.neat ht
  | processNothing | process | stopAsync => exact h.marked.congr rfl rfl (fun _ => rfl) (fun _ => rfl)
  | refused | waits => exact h.marked
  | created hst ho => exact h.enterStream ho
  | woken hw ho => exact h.enterStream ho
  | delivered hr hslot => exact h.marked.deliver _ _
  | unexpected hr hslot => exact h.marked.turn h.sound.core h.neat (.readerFail hr)
  | deleted ho hf => exact h.marked.releaseStream ho

/-- `ff_assert(active_request_streams_cnt == 0)` of `mrpc_client_stream_processor_process_stream`. -/
def BeginsIdle (c : ClientStreamProcessor) (a : Action) : Prop := a = .processStream → c.core.activeCnt = 0

theorem reader_ne_starting {a : Action} (h : c.core.reader ≠ .starting) (hc : c.Sound) (hs : c.step a = some c') :
    c'.core.reader ≠ .starting := by
  cases outcome_of_step hs with
  | event ht => exact Turn_reader_ne_starting hc.core ht h
  | process hr hst => simp
  | delivered hr hslot => simp [StreamProcessor.deliver]
  | unexpected hr hslot => simp [StreamProcessor.abandon]
  | deleted ho hf =>
    rw [StreamProcessor.releaseStream_eq]
    exact h
  | _ => exact h

theorem signalled_step {a : Action} (h : c.core.Signalled) (hne : c.core.reader ≠ .starting) (hc : c.Sound)
    (hC : BeginsIdle c a) (hs : c.step a = some c') : c'.core.Signalled := by
  cases outcome_of_step hs with
  | event ht => exact h.turn hc.core ht
  | processNothing | stopAsync => exact StreamProcessor.signalled_of_ne_working (by simp [ClientStreamProcessor.stopAsync])
  | process hr hst => exact ⟨fun _ => Or.inr rfl, fun _ _ => ⟨fun _ => hC rfl, fun _ => rfl⟩⟩
  | refused | waits => exact h
  | created hst ho => exact h.enter hne _ _
  | woken hw ho => exact h.enter hne _ _
  | delivered hr hslot => exact h.deliver (by rw [hr]; rfl) _ _
  | unexpected hr hslot => exact h.turn hc.core (.readerFail hr)
  | deleted ho hf => exact h.releaseStream _

end ClientStreamProcessor

/-- The client with the pool that makes its request streams, `created` so far, and the bitmap of their ids. -/
structure PooledClient where
  client : ClientStreamProcessor
  created : Nat
  requestStreamsBitmap : Bitmap

namespace PooledClient

open ClientStreamProcessor (Action)

/-- `mrpc_client_stream_processor_create`. -/
def create : Except Fault PooledClient := do
  let bitmap ← Bitmap.create maxRequestStreamsCnt
  .ok ⟨.create, 0, bitmap⟩

/-- `acquire_request_id`. -/
def acquireRequestId (bitmap : Bitmap) : Except Fault (RequestId × Bitmap) := do
  let (requestId, bitmap) ← bitmap.acquireBit
  ffAssert (0 ≤ requestId)
  ffAssert (requestId < maxRequestStreamsCnt)
  .ok (Fin.ofNat 256 requestId.toNat, bitmap)

/-- `ff_pool_acquire_entry` hands out `o`, which was made before or is the next one; `create_request_stream` gives it its
request id for good. -/
def acquireEntry (x : PooledClient) (o : StreamNo) : Option (RequestId × PooledClient) :=
  if o.val < x.created then some (x.client.core.requestIds o, x)
  else if o.val = x.created then
    match acquireRequestId x.requestStreamsBitmap with
    | .ok (requestId, bitmap) => some (requestId, { x with created := x.created + 1, requestStreamsBitmap := bitmap })
    | .error _ => none
  else none

/-- `acquire_request_stream`. -/
def acquireRequestStream (x : PooledClient) (o : StreamNo) : Option PooledClient :=
  (x.acquireEntry o).map fun (requestId, x) =>
    { x with client := { x.client with core := x.client.core.enter requestId o } }

def step (x : PooledClient) (a : Action) : Option PooledClient :=
  match a with
  | .createRequestStream o =>
    if x.client.core.state = .working ∧ ¬ x.client.core.owned o then x.acquireRequestStream o
    else (x.client.createRequestStream o).map fun c => { x with client := c }
  | .wake o =>
    if 0 < x.client.waiters ∧ ¬ x.client.core.owned o then
      (x.acquireRequestStream o).map fun x => { x with client := { x.client with waiters := x.client.waiters - 1 } }
    else none
  | a => (x.client.step a).map fun c => { x with client := c }

/-- The bits that are set are those of the streams that were made: the `n`-th has the bit `n`. -/
structure Numbered (x : PooledClient) : Prop where
  wellFormed : x.requestStreamsBitmap.WellFormed
  size : x.requestStreamsBitmap.size = maxRequestStreamsCnt
  created : x.created ≤ maxRequestStreamsCnt
  holds : ∀ n, x.requestStreamsBitmap.Holds n ↔ n < x.created
  lastFreeBit : x.requestStreamsBitmap.lastFreeBit = x.created - 1

variable {x y : PooledClient} {o : StreamNo}

/-- **The next stream gets the next number**, as long as one is left. -/
theorem Numbered.acquireRequestId_spec (h : x.Numbered) (hlt : x.created < maxRequestStreamsCnt) :
    ∃ bitmap, acquireRequestId x.requestStreamsBitmap = .ok (Fin.ofNat 256 x.created, bitmap) ∧
      Numbered { x with created := x.created + 1, requestStreamsBitmap := bitmap } := by
  have hmax : maxRequestStreamsCnt = 256 := rfl
  have hsize := h.size
  rcases h.wellFormed.acquireBit_spec with ⟨j, b', hrun, hacq, hall⟩ | ⟨-, hall⟩
  · rw [h.size, h.lastFreeBit] at hrun hacq hall
    -- the search passes the last number and stops at the next one
    have hk : (x.created - 1 + j) % maxRequestStreamsCnt = x.created := by
      have hclear := mt (h.holds _).2 hacq.clear
      have hpassed : ∀ i < j, (x.created - 1 + i) % maxRequestStreamsCnt < x.created := fun i hi =>
        (h.holds _).1 (hall i hi)
      rcases Nat.lt_trichotomy j 1 with hj | hj | hj
      · have hj0 : j = 0 := by omega
        rw [hj0, Nat.add_zero, Nat.mod_eq_of_lt (by omega)] at hclear ⊢
        omega
      · have h0 := hpassed 0 (by omega)
        rw [Nat.add_zero, Nat.mod_eq_of_lt (by omega)] at h0
        rw [hj, Nat.sub_add_cancel (by omega), Nat.mod_eq_of_lt hlt]
      · have h0 := hpassed 0 (by omega)
        have h1 := hpassed 1 hj
        rw [Nat.add_zero, Nat.mod_eq_of_lt (by omega)] at h0
        rw [Nat.sub_add_cancel (by omega), Nat.mod_eq_of_lt hlt] at h1
        omega
    rw [hk] at hrun hacq
    refine ⟨b', ?_, hacq.wellFormed, hacq.size.trans h.size, hlt, fun n => ?_, ?_⟩
    · rw [acquireRequestId, hrun, ok_bind]
      dsimp only
      rw [ffAssert_of (by omega), ok_bind, ffAssert_of (by omega), ok_bind, Int.toNat_natCast]
    · rw [hacq.holds, h.holds]
      show n = x.created ∨ n < x.created ↔ n < x.created + 1
      omega
    · exact hacq.lastFreeBit
  · have := (h.holds (maxRequestStreamsCnt - 1)).1 (hall _ (by omega))
    omega

/-- What holds after every run. -/
structure Pooled (x : PooledClient) : Prop where
  tabled : x.client.Tabled
  starting : x.client.core.reader ≠ .starting
  numbered : x.Numbered

theorem pooled_create : ∃ x, create = .ok x ∧ x.Pooled ∧ x.client = .create := by
  obtain ⟨bitmap, hcreate, hwf, hsize, hclear⟩ := Bitmap.wellFormed_create (show 0 < maxRequestStreamsCnt by decide)
  refine ⟨⟨.create, 0, bitmap⟩, ?_, ⟨ClientStreamProcessor.tabled_create, nofun, hwf, hsize, Nat.zero_le _, fun n => ?_, ?_⟩,
    rfl⟩
  · rw [create, hcreate, ok_bind]
  · exact iff_of_false (hclear n) (Nat.not_lt_zero n)
  · cases hcreate
    rfl

/-- **The pool hands out a stream under its own number.** -/
theorem Pooled.acquireEntry_spec (h : x.Pooled) {requestId : RequestId} (ha : x.acquireEntry o = some (requestId, y)) :
    requestId = o ∧ y.client = x.client ∧ y.Numbered := by
  have hmax : maxRequestStreamsCnt = 256 := rfl
  have ho := o.isLt
  unfold acquireEntry at ha
  split at ha
  · cases ha
    exact ⟨h.tabled.sound.requestIds o, rfl, h.numbered⟩
  · split at ha
    · rename_i heq
      obtain ⟨bitmap, hrun, hnum⟩ := h.numbered.acquireRequestId_spec (by omega)
      rw [hrun] at ha
      cases ha
      refine ⟨?_, rfl, hnum⟩
      rw [← heq]
      exact Fin.ext (Nat.mod_eq_of_lt ho)
    · cases ha

theorem Pooled.acquireRequestStream_spec (h : x.Pooled) (ha : x.acquireRequestStream o = some y) :
    y.client = { x.client with core := x.client.enterStream o } ∧ y.Numbered := by
  obtain ⟨⟨requestId, z⟩, hz, rfl⟩ := Option.map_eq_some_iff.1 ha
  obtain ⟨rfl, hclient, hnum⟩ := h.acquireEntry_spec hz
  refine ⟨?_, hnum.wellFormed, hnum.size, hnum.created, hnum.holds, hnum.lastFreeBit⟩
  dsimp only
  rw [hclient, ClientStreamProcessor.enterStream, h.tabled.sound.requestIds]

/-- **Every step is one of the client's.** -/
theorem Pooled.step_client {a : Action} (h : x.Pooled) (hs : x.step a = some y) :
    x.client.step a = some y.client ∧ y.Numbered := by
  have hother : (x.client.step a).map (fun c => { x with client := c }) = some y →
      x.client.step a = some y.client ∧ y.Numbered := fun hs => by
    obtain ⟨c, hc, rfl⟩ := Option.map_eq_some_iff.1 hs
    exact ⟨hc, h.numbered.wellFormed, h.numbered.size, h.numbered.created, h.numbered.holds, h.numbered.lastFreeBit⟩
  cases a with
  | createRequestStream o =>
    simp only [step] at hs
    split at hs
    · rename_i hg
      obtain ⟨hclient, hnum⟩ := h.acquireRequestStream_spec hs
      refine ⟨?_, hnum⟩
      rw [hclient, ClientStreamProcessor.step, ClientStreamProcessor.createRequestStream, if_pos hg.1, if_neg hg.2]
    · exact hother hs
  | wake o =>
    simp only [step] at hs
    split at hs
    · rename_i hg
      obtain ⟨z, hz, rfl⟩ := Option.map_eq_some_iff.1 hs
      obtain ⟨hclient, hnum⟩ := h.acquireRequestStream_spec hz
      refine ⟨?_, hnum.wellFormed, hnum.size, hnum.created, hnum.holds, hnum.lastFreeBit⟩
      rw [ClientStreamProcessor.step, ClientStreamProcessor.wake, if_pos hg]
      dsimp only
      rw [hclient]
    · cases hs
  | _ => exact hother hs

theorem Pooled.step {a : Action} (h : x.Pooled) (hs : x.step a = some y) : y.Pooled := by
  obtain ⟨hstep, hnum⟩ := h.step_client hs
  exact ⟨h.tabled.step hstep, ClientStreamProcessor.reader_ne_starting h.starting h.tabled.sound hstep, hnum⟩

/-- The ids of the streams that were made are distinct bits of the bitmap; the next stream finds another one; and what
the pool hands out finds its slot empty. -/
structure IdsOk (x : PooledClient) : Prop where
  bit : ∀ o : StreamNo, o < x.created → x.requestStreamsBitmap.Holds (x.client.core.requestIds o)
  distinct : ∀ o o' : StreamNo, o < x.created → o' < x.created →
    x.client.core.requestIds o = x.client.core.requestIds o' → o = o'
  created : x.created ≤ maxRequestStreamsCnt
  acquires : x.created < maxRequestStreamsCnt →
    ∃ requestId bitmap, acquireRequestId x.requestStreamsBitmap = .ok (requestId, bitmap)
  empty : ∀ o requestId y, ¬ x.client.core.owned o → x.acquireEntry o = some (requestId, y) →
    x.client.core.active requestId = none

theorem Pooled.idsOk (h : x.Pooled) : x.IdsOk := by
  refine ⟨fun o ho => ?_, fun o o' _ _ heq => ?_, h.numbered.created, fun hlt => ?_, fun o requestId y ho ha => ?_⟩
  · rw [h.tabled.sound.requestIds]
    exact (h.numbered.holds o).2 ho
  · rwa [h.tabled.sound.requestIds, h.tabled.sound.requestIds] at heq
  · obtain ⟨bitmap, hrun, -⟩ := h.numbered.acquireRequestId_spec hlt
    exact ⟨_, bitmap, hrun⟩
  · rw [(h.acquireEntry_spec ha).1]
    exact h.tabled.sound.slot_of_not_owned ho

end PooledClient

/-- **The request-id table.**  In every run of either side the table, the counter and the ids are in step, and on the
client every stream has a bit of its own; the event is set exactly when no stream is active, from the reader's start on
and, on the client, as long as every `process_stream` has found no stream active. -/
theorem requestIds_of_exec :
    (∃ x₀, PooledClient.create = .ok x₀ ∧ ∀ as x, Run.exec PooledClient.step x₀ as = some x →
      x.client.core.TableOk ∧ x.IdsOk ∧
      (Run.Meets PooledClient.step (fun x a => ClientStreamProcessor.BeginsIdle x.client a) x₀ as →
        x.client.core.state = .working → (x.client.core.streamsStopEvent = true ↔ x.client.core.activeCnt = 0))) ∧
    ∀ as s, Run.exec ServerStreamProcessor.step ServerStreamProcessor.create as = some s →
      s.TableOk ∧ (s.state = .working → s.reader ≠ .starting → (s.streamsStopEvent = true ↔ s.activeCnt = 0)) := by
  constructor
  · obtain ⟨x₀, hcreate, hx₀, hclient⟩ := PooledClient.pooled_create
    refine ⟨x₀, hcreate, fun as x hrun => ?_⟩
    have hx : x.Pooled := Run.invariant (P := PooledClient.Pooled) (fun _ _ _ h _ hs => h.step hs) as hx₀
      (Run.meets_true _ _) hrun
    refine ⟨hx.tabled.marked.tableOk hx.tabled.sound.core hx.tabled.neat, hx.idsOk, fun hmeets hw => ?_⟩
    have hsig : x.Pooled ∧ x.client.core.Signalled :=
      Run.invariant (P := fun x => x.Pooled ∧ x.client.core.Signalled) (fun _ _ _ h hC hs =>
          ⟨h.1.step hs, ClientStreamProcessor.signalled_step h.2 h.1.starting h.1.tabled.sound hC (h.1.step_client hs).1⟩)
        as ⟨hx₀, hclient ▸ StreamProcessor.signalled_create⟩ hmeets hrun
    exact hsig.2.event hw hx.starting
  · intro as s hrun
    have hs := ServerStreamProcessor.tabled_of_exec as hrun
    exact ⟨hs.marked.tableOk hs.sound.core hs.neat, hs.signalled.event⟩

/-- A call on the client, and a request on the server. -/
theorem requestIds_of_exec_request :
    (∃ x₀ x, PooledClient.create = .ok x₀ ∧
      Run.exec PooledClient.step x₀ [.processStream, .createRequestStream 0] = some x ∧ x.client.core.TableOk ∧
      (x.client.core.streamsStopEvent = true ↔ x.client.core.activeCnt = 0)) ∧
    ServerStreamProcessor.requested.TableOk ∧
    (ServerStreamProcessor.requested.streamsStopEvent = true ↔ ServerStreamProcessor.requested.activeCnt = 0) := by
  obtain ⟨x₀, hcreate, hall⟩ := requestIds_of_exec.1
  cases hcreate
  have hclient := hall [.processStream, .createRequestStream 0] _ rfl
  have hserver := requestIds_of_exec.2 ServerStreamProcessor.request _ ServerStreamProcessor.exec_request
  refine ⟨⟨_, _, rfl, rfl, hclient.1, hclient.2.2 ⟨fun _ => rfl, fun x hx => ⟨nofun, fun y hy => trivial⟩⟩ rfl⟩,
    hserver.1, hserver.2 rfl nofun⟩

/-- **A server that was started has not set the event yet**, until its reader fiber runs. -/
theorem not_signalled_start : ¬ ∀ as s,
    Run.exec ServerStreamProcessor.step ServerStreamProcessor.create as = some s →
      s.state = .working → (s.streamsStopEvent = true ↔ s.activeCnt = 0) := by
  intro h
  have hset := (h [.start] _ rfl rfl).2 rfl
  cases hset

end Mrpc
