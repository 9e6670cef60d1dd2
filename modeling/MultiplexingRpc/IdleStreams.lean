import MultiplexingRpc.ClientStreamProcessor
import MultiplexingRpc.ServerStreamProcessor
/-!
# IdleStreams — what is left in a request stream that nobody uses

`release_request_stream` shuts the packet stream down, so an idle stream should look as it was made.  The one fiber that
acts on a stream it does not own is the reader in `mrpc_packet_stream_disconnect`: it chooses an active stream, may have
to wait for a free packet, and pushes the packet whatever became of the stream meanwhile.
-/
namespace Mrpc
namespace StreamProcessor

variable {s s' : StreamProcessor} {o : StreamNo}

/-- The reader waits for a packet to disconnect `o`. -/
def Awaited (s : StreamProcessor) (o : StreamNo) : Prop := ∃ i, s.reader = .disconnectAcquiring i o

structure Tidy (s : StreamProcessor) : Prop where
  idle : ∀ o, ¬ s.owned o → s.streams o = PacketStream.create
  awaited : ∀ o, s.Awaited o → s.owned o

/-- What idle streams promise to the next request, and to a processor that has stopped: all the packets it made are in
the pool. -/
structure Clean (s : StreamProcessor) : Prop where
  idle : ∀ o, (∀ r, s.active r ≠ some o) → (s.streams o).currentReadPacket = none ∧
    (s.streams o).currentWritePacket = none ∧ (s.streams o).requestId = 0 ∧ (s.streams o).readerQueue = []
  reused : ∀ r o, (∀ r, s.active r ≠ some o) → ((s.enter r o).streams o).packets = []
  stopped : s.state = .stopped →
    (s.packetsPool.free.map Packet.addr : Multiset Nat) = Multiset.range s.packetsPool.created

theorem tidy_create : create.Tidy := ⟨fun _ _ => rfl, fun _ h => by obtain ⟨i, h⟩ := h; cases h⟩

/-- **Only the reader begins to wait for a disconnect**, for a stream that is active. -/
theorem Turn.awaited {e : Event} (hs : s.Sound) (ht : Turn s e s') (h : s'.Awaited o) : s.Awaited o ∨ s.owned o := by
  obtain ⟨i, hi⟩ := h
  cases hown : e.owner with
  | some o' =>
    obtain ⟨-, ps, f, pool, queue, -, -, rfl⟩ := ht.ownerFrame hs.fiberOk hown
    exact Or.inl ⟨i, hi⟩
  | none =>
    cases ht.system hown with
    | readerBlock hr hlt hslot hp =>
      cases hi
      exact Or.inr (hs.owned_of_active hslot)
    | writerGet | writerSkip | writerEnd | writeOk | writeFail | flushOk | flushFail => exact Or.inl ⟨i, hi⟩
    | _ => cases hi

theorem Tidy.turn {e : Event} (h : s.Tidy) (hs : s.Sound) (ht : Turn s e s') : s'.Tidy := by
  refine ⟨fun o ho => ?_, fun o ha => ?_⟩
  · rw [ht.owned_iff hs] at ho
    rcases ht.idle_stream hs ho with heq | ⟨p, i, hr, -, -⟩
    · exact heq.trans (h.idle o ho)
    · exact absurd (h.awaited o ⟨i, hr⟩) ho
  · rw [ht.owned_iff hs]
    rcases ht.awaited hs ha with ha | ho
    · exact h.awaited o ha
    · exact ho

theorem Tidy.of_reader (h : s.Tidy) {reader : Reader} (hr : ∀ i o, reader ≠ .disconnectAcquiring i o)
    (state : ProcessorState) (writer : Writer) (event : Bool) :
    { s with state := state, writer := writer, streamsStopEvent := event, reader := reader }.Tidy :=
  ⟨h.idle, fun o ⟨i, hi⟩ => absurd hi (hr i o)⟩

theorem Tidy.setState (h : s.Tidy) (state : ProcessorState) : { s with state := state }.Tidy := ⟨h.idle, h.awaited⟩

theorem Tidy.enter (h : s.Tidy) {r : RequestId} (hslot : s.active r = none) : (s.enter r o).Tidy := by
  refine ⟨fun i hi => ?_, fun i ha => ?_⟩
  · have hne : i ≠ o := fun hio => hi (hio ▸ owned_enter_self s r o)
    rw [owned_enter hslot hne] at hi
    simpa [StreamProcessor.enter, hne] using h.idle i hi
  · by_cases hio : i = o
    · exact hio ▸ owned_enter_self s r o
    · rw [owned_enter hslot hio]
      exact h.awaited i ha

theorem Tidy.deliver (h : s.Tidy) (ho : s.owned o) (p : Packet) : (s.deliver o p).Tidy := by
  refine ⟨fun i hi => ?_, fun i ⟨n, ha⟩ => by cases ha⟩
  have hne : i ≠ o := fun hio => hi (hio ▸ ho)
  simpa [StreamProcessor.deliver, pushPacket, setStream, hne] using h.idle i hi

/-- **A release keeps the streams tidy** unless the reader waits to disconnect that very stream. -/
theorem Tidy.releaseStream (h : s.Tidy) (ho : s.owned o) (ha : ¬ s.Awaited o) : (s.releaseStream o).Tidy := by
  refine ⟨fun i hi => ?_, fun i hai => ?_⟩
  · rw [streams_releaseStream]
    by_cases hio : i = o
    · subst hio
      exact Function.update_self ..
    · rw [owned_releaseStream ho hio] at hi
      rw [Function.update_of_ne hio]
      exact h.idle i hi
  · have hai' : s.Awaited i := by
      rw [releaseStream_eq] at hai
      exact hai
    have hio : i ≠ o := fun hio => ha (hio ▸ hai')
    rw [owned_releaseStream ho hio]
    exact h.awaited i hai'

theorem Tidy.held_eq_zero (h : s.Tidy) (hs : s.Sound) (hp : s.Phased) (hst : s.state = .stopped) : s.held = 0 := by
  obtain ⟨hr, hw, hq, -, hcnt⟩ := hp.quiet hst
  have hstreams : ∀ o, s.streams o = PacketStream.create := fun o => h.idle o fun ho => by
    have := hs.activeCnt_pos ho
    omega
  simp [held, hr, hw, hq, hstreams, Reader.packets, Writer.packets, PacketStream.packets, PacketStream.create]

theorem Tidy.clean (h : s.Tidy) (hs : s.Sound) (hp : s.Phased) : s.Clean := by
  refine ⟨fun o ho => ?_, fun r o ho => ?_, fun hst => ?_⟩
  · rw [h.idle o (ho _)]
    exact ⟨rfl, rfl, rfl, rfl⟩
  · simp [StreamProcessor.enter, h.idle o (ho _), PacketStream.initialise, PacketStream.create, PacketStream.packets]
  · have htotal := hs.conserved.1.total
    rw [h.held_eq_zero hs hp hst, addrs_nil, add_zero, add_zero] at htotal
    exact htotal

end StreamProcessor

/-! ## The client -/

namespace ClientStreamProcessor

variable {c c' : ClientStreamProcessor}

/-- No stream is deleted while the reader waits to disconnect it, and nobody waits for a stream when the processor is
told to stop. -/
def Undisturbed (c : ClientStreamProcessor) (a : Action) : Prop :=
  (∀ o, a = .deleteRequestStream o → ¬ c.core.Awaited o) ∧ Unwaited c a

theorem tidy_step {a : Action} (h : c.Sound) (ht : c.core.Tidy)
    (ha : ∀ o, a = .deleteRequestStream o → ¬ c.core.Awaited o) (hs : c.step a = some c') : c'.core.Tidy := by
  have henter : ∀ o, ¬ c.core.owned o → (c.enterStream o).Tidy := fun o ho => by
    refine ht.enter ?_
    rw [h.requestIds]
    exact h.slot_of_not_owned ho
  cases outcome_of_step hs with
  | event hturn => exact ht.turn h.core hturn
  | processNothing hr hst => exact ht.setState _
  | process hr hst => exact ht.of_reader (by simp) _ _ _
  | refused hst => exact ht
  | created hst ho => exact henter _ ho
  | waits hst hall => exact ht
  | woken hw ho => exact henter _ ho
  | delivered hr hslot => exact ht.deliver (h.core.owned_of_active hslot) _
  | unexpected hr hslot => exact ht.turn h.core (.readerFail hr)
  | deleted ho hf => exact ht.releaseStream ho (ha _ rfl)
  | stopAsync => exact ht.setState _

theorem clean_of_undisturbed {as : List Action} (hu : Run.Meets step Undisturbed create as)
    (hrun : Run.exec step create as = some c) : c.core.Clean := by
  have h : c.Orderly ∧ c.core.Tidy := Run.invariant (P := fun c => c.Orderly ∧ c.core.Tidy)
    (fun _ _ _ ⟨ho, ht⟩ hC hstep => ⟨ho.step hC.2 hstep, tidy_step ho.sound ht hC.1 hstep⟩) as ⟨orderly_create, StreamProcessor.tidy_create⟩ hu hrun
  exact h.2.clean h.1.sound.core h.1.phased

end ClientStreamProcessor

/-! ## The server -/

namespace ServerStreamProcessor

variable {s s' : StreamProcessor}

/-- No handler returns while the reader waits to disconnect its stream. -/
def Undisturbed (s : StreamProcessor) (a : Action) : Prop :=
  ∀ o result, a = .handlerReturn o result → ¬ s.Awaited o

theorem tidy_step {a : Action} (h : Sound s) (ht : s.Tidy) (hu : Undisturbed s a) (hs : step s a = some s') :
    s'.Tidy := by
  cases outcome_of_step hs with
  | event hturn => exact ht.turn h.core hturn
  | start hr hst => exact ht.of_reader (by simp) _ _ _
  | readerStart hr => exact ht.of_reader (by simp) _ _ _
  | begun hr hf hslot ho => exact (ht.enter hslot).deliver (StreamProcessor.owned_enter_self _ _ _) _
  | continued hr hf hslot => exact ht.deliver (h.core.owned_of_active hslot) _
  | unexpected hr hf => exact ht.turn h.core (.readerFail hr)
  | returned ho hf => exact ht.releaseStream ho (hu _ _ rfl)
  | failed ho hf =>
    exact StreamProcessor.Tidy.releaseStream (s := s.stopAsync) (ht.setState _) ho (hu _ _ rfl)
  | stopAsync hst => exact ht.setState _

theorem clean_of_undisturbed {as : List Action} (hu : Run.Meets step Undisturbed create as)
    (hrun : Run.exec step create as = some s) : s.Clean := by
  have htidy : create.Tidy := ⟨fun _ _ => rfl, fun _ h => by obtain ⟨i, h⟩ := h; cases h⟩
  have h : Sound s ∧ s.Tidy := Run.invariant (P := fun s => Sound s ∧ s.Tidy)
    (fun _ _ _ ⟨ho, ht⟩ hC hstep => ⟨ho.step hstep, tidy_step ho ht hC hstep⟩) as ⟨sound_create, htidy⟩ hu hrun
  exact h.2.clean h.1.core h.1.phased

end ServerStreamProcessor

/-- **Idle request streams are clean** in every run of either processor in which no stream is released while the reader
waits to disconnect it. -/
theorem idleStreams_clean (as : List ClientStreamProcessor.Action) (c : ClientStreamProcessor)
    (bs : List ServerStreamProcessor.Action) (s : StreamProcessor)
    (hc : Run.Meets ClientStreamProcessor.step ClientStreamProcessor.Undisturbed ClientStreamProcessor.create as)
    (hcrun : Run.exec ClientStreamProcessor.step ClientStreamProcessor.create as = some c)
    (hs : Run.Meets ServerStreamProcessor.step ServerStreamProcessor.Undisturbed ServerStreamProcessor.create bs)
    (hsrun : Run.exec ServerStreamProcessor.step ServerStreamProcessor.create bs = some s) :
    c.core.Clean ∧ s.Clean :=
  ⟨ClientStreamProcessor.clean_of_undisturbed hc hcrun, ServerStreamProcessor.clean_of_undisturbed hs hsrun⟩

/-- A stream is made and deleted; a request comes and its handler returns. -/
theorem idleStreams_clean_released : ∃ c s,
    Run.exec ClientStreamProcessor.step ClientStreamProcessor.create
      [.processStream, .createRequestStream 0, .deleteRequestStream 0] = some c ∧
    Run.exec ServerStreamProcessor.step ServerStreamProcessor.create
      (ServerStreamProcessor.request ++ [.handlerReturn 0 .success]) = some s ∧ c.core.Clean ∧ s.Clean := by
  refine ⟨_, _, rfl, rfl, idleStreams_clean [.processStream, .createRequestStream 0, .deleteRequestStream 0] _
    (ServerStreamProcessor.request ++ [.handlerReturn 0 .success]) _ ?_ rfl ?_ rfl⟩
  · refine ⟨⟨by simp, fun _ => rfl⟩, fun t ht => ⟨⟨by simp, fun _ => ?_⟩, fun u hu => ⟨⟨?_, fun _ => ?_⟩, fun _ _ => trivial⟩⟩⟩
    · cases ht
      rfl
    · cases ht
      cases hu
      rintro o - ⟨i, hi⟩
      cases hi
    · cases ht
      cases hu
      rfl
  · refine Run.meets_append_of _ ServerStreamProcessor.exec_request ?_ ⟨?_, fun _ _ => trivial⟩
    · exact ⟨nofun, fun _ _ => ⟨nofun, fun _ _ => ⟨nofun, fun _ _ => ⟨nofun, fun _ _ => trivial⟩⟩⟩⟩
    · rintro o result - ⟨i, hi⟩
      cases hi

namespace ServerStreamProcessor

/-- A second request begins. -/
def secondRequest : List Action := [.event .reader, .receive ⟨.start, 1, []⟩ 1]

/-- The processor after it. -/
def twiceRequested : StreamProcessor :=
  ({ requested with packetsPool := ⟨maxPacketsCnt, 2, []⟩, reader := .reading (Packet.create 1) }.enter 1 1).deliver 1
    ⟨1, .start, 1, [], 0⟩

theorem exec_secondRequest : Run.exec step requested secondRequest = some twiceRequested := rfl

theorem sound_twiceRequested : Sound twiceRequested :=
  Run.invariant (fun _ _ _ hs _ hstep => hs.step hstep) _ sound_requested (Run.meets_true _ _) exec_secondRequest

theorem card_held_twiceRequested : twiceRequested.held.card = 2 := by
  have hfree : twiceRequested.packetsPool.free.length = 0 := rfl
  have hcreated : twiceRequested.packetsPool.created = 2 := rfl
  have h := sound_twiceRequested.core.free_add_card_held
  omega

theorem active_requested_of_ne {r : RequestId} (hr : r ≠ 0) : requested.active r = none := by
  simp [requested, StreamProcessor.deliver, StreamProcessor.pushPacket, StreamProcessor.setStream, StreamProcessor.enter,
    create, StreamProcessor.create, hr]

/-- The reader takes the last packet of the pool. -/
theorem step_reader_last {s : StreamProcessor} (hs : Sound s) (hr : s.reader = .acquiring)
    (hcard : s.held.card = 511) :
    ∃ p pool, step s (.event .reader) = some { s with packetsPool := pool, reader := .reading p } ∧ pool.exhausted := by
  have hmax : maxPacketsCnt = 512 := rfl
  obtain ⟨p, pool, hp⟩ := StreamProcessor.exists_acquirePacket (s := s) (by rw [hs.core.exhausted_iff]; omega)
  have hstep : step s (.event .reader) = some { s with packetsPool := pool, reader := .reading p } := by
    simp only [step, StreamProcessor.event, StreamProcessor.readerStep, hr, hp, Option.map_some]
  refine ⟨p, pool, hstep, (hs.step hstep).core.exhausted_iff.2 ?_⟩
  rw [StreamProcessor.card_held] at hcard ⊢
  rw [show s.reader.packets.length = 0 by rw [hr]; rfl] at hcard
  dsimp only
  rw [show (Reader.reading p).packets.length = 1 from rfl]
  omega

/-- The connection breaks; the reader disconnects the first request, runs out of packets at the second, and goes on once
the second handler has returned. -/
def breakdown : List Action :=
  [.event .reader, .event .readerFail, .event .reader, .event .reader, .handlerReturn 1 .success, .event .reader]

/-- The packet meant for the second handler ends up in its stream after the handler left. -/
theorem not_idleStreams_clean :
    ¬ ((∀ as c, Run.exec ClientStreamProcessor.step ClientStreamProcessor.create as = some c → c.core.Clean) ∧
      ∀ bs s, Run.exec ServerStreamProcessor.step ServerStreamProcessor.create bs = some s → s.Clean) := by
  rintro ⟨-, h⟩
  obtain ⟨pool, queue, hheld, hfeed⟩ := exec_feed (r := 0) (o := 0) 509 sound_twiceRequested rfl rfl (by
    rw [card_held_twiceRequested]
    decide)
  let s₃ : StreamProcessor := fed twiceRequested 0 pool queue
  have hsound₃ : Sound s₃ :=
    Run.invariant (fun _ _ _ hs _ hstep => hs.step hstep) _ sound_twiceRequested (Run.meets_true _ _) hfeed
  have hcard₃ : s₃.held.card = 511 := by
    rw [card_held_twiceRequested] at hheld
    exact hheld
  -- the last packet goes to the reader
  obtain ⟨p, pool₄, hstep₄, hexhausted⟩ := step_reader_last hsound₃ rfl hcard₃
  let s₄ : StreamProcessor := { s₃ with packetsPool := pool₄, reader := .reading p }
  -- it is released, and goes to the first request; there is none for the second
  let s₅ : StreamProcessor := s₄.abandon p
  let s₆ : StreamProcessor := { { s₅ with packetsPool := pool₄ }.pushDisconnect 0 p.reset with reader := .disconnecting 1 }
  let s₇ : StreamProcessor := { s₆ with reader := .disconnectAcquiring 1 1 }
  let s₈ : StreamProcessor := s₇.releaseStream 1
  let s₉ : StreamProcessor :=
    { { s₈ with packetsPool := pool₄ }.pushDisconnect 1 (Packet.create 1) with reader := .disconnecting 2 }
  have hstep₇ : step s₆ (.event .reader) = some s₇ := by
    have hnone : s₆.acquirePacket = none := StreamProcessor.acquirePacket_eq_none.2 hexhausted
    have hr : s₆.reader = .disconnecting 1 := rfl
    have hlt : 1 < maxRequestStreamsCnt := by decide
    simp only [step, StreamProcessor.event, StreamProcessor.readerStep, hr, hnone, hlt, dif_pos]
    rfl
  have hrun : Run.exec step s₃ breakdown = some s₉ := by
    rw [breakdown, Run.exec_cons_of _ hstep₄, Run.exec_cons_of _ (show step s₄ _ = some s₅ from rfl),
      Run.exec_cons_of _ (show step s₅ _ = some s₆ from rfl), Run.exec_cons_of _ hstep₇,
      Run.exec_cons_of _ (show step s₇ _ = some s₈ from rfl)]
    rfl
  have hclean := h (request ++ (secondRequest ++ (feed 0 509 ++ breakdown))) s₉ (by
    rw [Run.exec_append_of _ _ exec_request, Run.exec_append_of _ _ exec_secondRequest, Run.exec_append_of _ _ hfeed]
    exact hrun)
  have hidle := (hclean.idle 1 ?_).2.2.2
  · cases hidle
  · intro r
    have hactive : s₉.active = Function.update (Function.update requested.active 1 (some 1)) 1 none := rfl
    rw [hactive, Function.update_idem]
    by_cases hr1 : r = 1
    · subst hr1
      simp
    · by_cases hr0 : r = 0
      · subst hr0
        decide
      · simp [hr1, active_requested_of_ne hr0]

end ServerStreamProcessor
end Mrpc
