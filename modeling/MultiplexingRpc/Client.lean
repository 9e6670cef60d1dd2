import MultiplexingRpc.IdleStreams
/-!
# Client — connecting, and stopping (`mrpc_client.c`)

One fiber connects to the server and hands each connection to the stream processor, until the connector returns `NULL`;
it does so once it was shut down, and until then `ff_stream_connector_connect` returns only with a stream.
`mrpc_client_stop` shuts the connector down, tells the stream processor to stop and waits for that fiber;
`mrpc_client_reset_connection` only tells the stream processor to stop.
-/
namespace Mrpc

/-- Where `main_client_func` stands: `starting`, not yet scheduled; `processing`, inside
`mrpc_client_stream_processor_process_stream`. -/
inductive MainClient where
  | stopped
  | starting
  | connecting
  | processing
  deriving DecidableEq, Repr

/-- `struct mrpc_client`. -/
structure Client where
  streamProcessor : ClientStreamProcessor
  stopEvent : Bool
  main : MainClient
  phase : RunPhase

namespace ClientStreamProcessor

variable {c c' : ClientStreamProcessor} {a : Action}

/-- A stream without an owner has no fiber inside it. -/
def Resting (c : ClientStreamProcessor) : Prop := ∀ o, ¬ c.core.owned o → c.core.fibers o = .running

theorem Resting.enter (h : c.Resting) (hc : c.Sound) {o : StreamNo} (ho : ¬ c.core.owned o) (i : StreamNo)
    (hi : ¬ (c.enterStream o).owned i) : (c.enterStream o).fibers i = .running := by
  have hslot : c.core.active (c.core.requestIds o) = none := by
    rw [hc.requestIds]
    exact hc.slot_of_not_owned ho
  have hio : i ≠ o := fun hio => hi (hio ▸ StreamProcessor.owned_enter_self _ _ _)
  unfold enterStream at hi ⊢
  rw [StreamProcessor.owned_enter hslot hio] at hi
  simpa [StreamProcessor.enter, hio] using h i hi

theorem Resting.step (h : c.Resting) (hc : c.Sound) (hs : c.step a = some c') : c'.Resting := by
  intro i hi
  cases outcome_of_step hs with
  | @event e core ht =>
    have hi' : ¬ c.core.owned i := (ht.owned_iff hc.core).not.1 hi
    show core.fibers i = .running
    cases hown : e.owner with
    | some o =>
      obtain ⟨ho, ps, f, pool, queue, -, -, rfl⟩ := ht.ownerFrame hc.core.fiberOk hown
      have hio : i ≠ o := fun hio => hi' (hio ▸ ho)
      dsimp only
      rw [Function.update_of_ne hio]
      exact h i hi'
    | none => cases ht.system hown <;> exact h i hi'
  | created hst ho => exact h.enter hc ho i hi
  | woken hw ho => exact h.enter hc ho i hi
  | @deleted o ho hf =>
    have hfibers : (c.core.releaseStream o).fibers = c.core.fibers := by rw [StreamProcessor.releaseStream_eq]
    show (c.core.releaseStream o).fibers i = .running
    rw [hfibers]
    by_cases hio : i = o
    · rw [hio]
      exact hf
    · rw [StreamProcessor.owned_releaseStream ho hio] at hi
      exact h i hi
  | _ => exact h i hi

/-- **Between connections nothing moves** until the next one comes or the processor is told to stop. -/
theorem Orderly.eq_of_stopped (h : c.Orderly) (hr : c.core.reader = .stopped) (ha : a ≠ .processStream ∧ a ≠ .stopAsync)
    (hs : c.step a = some c') : c' = c := by
  have hp := h.phased.phaseOk
  rw [StreamProcessor.PhaseOk, hr] at hp
  obtain ⟨hst, hw, -, -, hcnt⟩ := hp
  have hidle : ∀ o, ¬ c.core.owned o := fun o ho => by
    have := h.sound.core.activeCnt_pos ho
    omega
  cases outcome_of_step hs with
  | @event e core ht =>
    cases hown : e.owner with
    | some o => exact absurd (ht.ownerFrame h.sound.core.fiberOk hown).1 (hidle o)
    | none =>
      cases ht.system hown with
      | readerAcquire hr' | readerPass hr' | readerDisconnect hr' | readerBlock hr' | readerDisconnectLate hr'
      | readerLoopEnd hr' | readerStreamsStopped hr' | readerWriterStopped hr' | readerFail hr' =>
        rw [hr] at hr'
        cases hr'
      | writerGet hw' | writerSkip hw' | writeOk hw' | writeFail hw' | flushOk hw' | flushFail hw' =>
        rw [hw] at hw'
        cases hw'
      | writerEnd hw' => rcases hw' with hw' | hw' <;> rw [hw] at hw' <;> cases hw'
  | processNothing | process => exact absurd rfl ha.1
  | refused => rfl
  | created hst' | waits hst' => exact absurd hst' hst
  | woken hpos => exact absurd (h.waiters hpos) hst
  | delivered hr' | unexpected hr' =>
    rw [hr] at hr'
    cases hr'
  | deleted ho => exact absurd ho (hidle _)
  | stopAsync => exact absurd rfl ha.2

/-- **A connection ends in `STATE_STOPPED`.** -/
theorem state_of_ends (hc : c.Sound) (hr : c.core.reader ≠ .stopped) (hs : c.step a = some c')
    (hr' : c'.core.reader = .stopped) : c'.core.state = .stopped := by
  cases outcome_of_step hs with
  | @event e core ht =>
    cases hown : e.owner with
    | some o =>
      obtain ⟨-, ps, f, pool, queue, -, -, rfl⟩ := ht.ownerFrame hc.core.fiberOk hown
      exact absurd hr' hr
    | none =>
      cases ht.system hown with
      | readerWriterStopped => rfl
      | writerGet | writerSkip | writerEnd | writeOk | writeFail | flushOk | flushFail => exact absurd hr' hr
      | _ => cases hr'
  | processNothing => rfl
  | process | delivered | unexpected => cases hr'
  | deleted =>
    rw [StreamProcessor.releaseStream_eq] at hr'
    exact absurd hr' hr
  | _ => exact absurd hr' hr

end ClientStreamProcessor

namespace Client

/-- What may happen next.  `connected`: the connector returns a stream; `streamProcessor a`: a call's or a fiber's step
within the stream processor. -/
inductive Action where
  | start
  | mainStart
  | connected
  | connectNull
  | streamProcessor (a : ClientStreamProcessor.Action)
  | resetConnection
  | stop
  | stopReturn
  deriving DecidableEq, Repr

/-- `mrpc_client_create`. -/
def create : Client := ⟨.create, false, .stopped, .stopped⟩

/-- `mrpc_client_stream_processor_process_stream` with a new connection; the fiber connects again if it returns at once. -/
def processStream (s : Client) : Option Client :=
  s.streamProcessor.processStream.map fun c =>
    { s with streamProcessor := c, main := if c.core.reader = .stopped then .connecting else .processing }

/-- A step within the stream processor, after which the fiber connects again if `process_stream` has returned. -/
def stepStreamProcessor (s : Client) (a : ClientStreamProcessor.Action) : Option Client :=
  if a ≠ .processStream ∧ a ≠ .stopAsync then
    (s.streamProcessor.step a).map fun c =>
      { s with
        streamProcessor := c
        main := if s.main = .processing ∧ c.core.reader = .stopped then .connecting else s.main }
  else none

def step (s : Client) : Action → Option Client
  | .start => if s.phase = .stopped then some { s with phase := .running, main := .starting } else none
  | .mainStart => if s.main = .starting then some { s with main := .connecting } else none
  | .connected => if s.main = .connecting ∧ s.phase = .running then s.processStream else none
  | .connectNull =>
    if s.main = .connecting ∧ s.phase = .stopping then some { s with stopEvent := true, main := .stopped } else none
  | .streamProcessor a => s.stepStreamProcessor a
  | .resetConnection => some { s with streamProcessor := s.streamProcessor.stopAsync }
  | .stop =>
    if s.phase = .running then some { s with streamProcessor := s.streamProcessor.stopAsync, phase := .stopping } else none
  | .stopReturn =>
    if s.phase = .stopping ∧ s.stopEvent then some { s with stopEvent := false, phase := .stopped } else none

/-! ## What a step does -/

variable {s s' : Client}

/-- The outcome of every step, with what has to hold before it. -/
inductive Outcome (s : Client) : Action → Client → Prop where
  | start (hp : s.phase = .stopped) : Outcome s .start { s with phase := .running, main := .starting }
  | mainStart (hm : s.main = .starting) : Outcome s .mainStart { s with main := .connecting }
  | discarded (hm : s.main = .connecting) (hp : s.phase = .running) (hr : s.streamProcessor.core.reader = .stopped)
    (hs : s.streamProcessor.core.state = .stopInitiated) {c} (hc : s.streamProcessor.step .processStream = some c)
    (hr' : c.core.reader = .stopped) (hs' : c.core.state = .stopped) :
    Outcome s .connected { s with streamProcessor := c, main := .connecting }
  | processed (hm : s.main = .connecting) (hp : s.phase = .running) (hs : s.streamProcessor.core.state = .stopped) {c}
    (hc : s.streamProcessor.step .processStream = some c) (hr : c.core.reader ≠ .stopped) :
    Outcome s .connected { s with streamProcessor := c, main := .processing }
  | connectNull (hm : s.main = .connecting) (hp : s.phase = .stopping) :
    Outcome s .connectNull { s with stopEvent := true, main := .stopped }
  | within {a c} (ha : a ≠ .processStream ∧ a ≠ .stopAsync) (hc : s.streamProcessor.step a = some c) :
    Outcome s (.streamProcessor a) { s with
      streamProcessor := c
      main := if s.main = .processing ∧ c.core.reader = .stopped then .connecting else s.main }
  | resetConnection : Outcome s .resetConnection { s with streamProcessor := s.streamProcessor.stopAsync }
  | stop (hp : s.phase = .running) :
    Outcome s .stop { s with streamProcessor := s.streamProcessor.stopAsync, phase := .stopping }
  | stopReturn (hp : s.phase = .stopping) (he : s.stopEvent = true) :
    Outcome s .stopReturn { s with stopEvent := false, phase := .stopped }

theorem outcome_of_step {a : Action} (h : s.step a = some s') : Outcome s a s' := by
  cases a with
  | start =>
    obtain ⟨hp, h⟩ := Option.ite_none_right_eq_some.1 h
    cases h
    exact .start hp
  | mainStart =>
    obtain ⟨hm, h⟩ := Option.ite_none_right_eq_some.1 h
    cases h
    exact .mainStart hm
  | connected =>
    obtain ⟨⟨hm, hp⟩, h⟩ := Option.ite_none_right_eq_some.1 h
    obtain ⟨c, hc, rfl⟩ := Option.map_eq_some_iff.1 h
    have hstep : s.streamProcessor.step .processStream = some c := hc
    unfold ClientStreamProcessor.processStream at hc
    split at hc
    · rename_i hr hs
      have hr' : c.core.reader = .stopped := by cases hc; exact hr
      have hs' : c.core.state = .stopped := by cases hc; rfl
      rw [if_pos hr']
      exact .discarded hm hp hr hs hstep hr' hs'
    · rename_i hr hs
      have hr' : c.core.reader ≠ .stopped := by cases hc; simp
      rw [if_neg hr']
      exact .processed hm hp hs hstep hr'
    · cases hc
  | connectNull =>
    obtain ⟨⟨hm, hp⟩, h⟩ := Option.ite_none_right_eq_some.1 h
    cases h
    exact .connectNull hm hp
  | streamProcessor a =>
    obtain ⟨ha, h⟩ := Option.ite_none_right_eq_some.1 h
    obtain ⟨c, hc, rfl⟩ := Option.map_eq_some_iff.1 h
    exact .within ha hc
  | resetConnection =>
    cases h
    exact .resetConnection
  | stop =>
    obtain ⟨hp, h⟩ := Option.ite_none_right_eq_some.1 h
    cases h
    exact .stop hp
  | stopReturn =>
    obtain ⟨⟨hp, he⟩, h⟩ := Option.ite_none_right_eq_some.1 h
    cases h
    exact .stopReturn hp he

/-! ## What holds after every run -/

/-- At most as many calls at a time as there are request streams. -/
def FewCalls (s : Client) (a : Action) : Prop :=
  ∀ o, a = .streamProcessor (.createRequestStream o) → ∃ i, ¬ s.streamProcessor.core.owned i

/-- The client is told to stop within a connection; a connection is reset while there is one, or will be; and no call
ends while the reader waits for a packet to disconnect its stream. -/
structure Timely (s : Client) (a : Action) : Prop where
  stop : a = .stop → s.phase = .running → s.main = .processing
  resetConnection : a = .resetConnection → s.phase = .running ∨ s.main = .processing
  delete : ∀ o, a = .streamProcessor (.deleteRequestStream o) → ¬ s.streamProcessor.core.Awaited o

/-- The fiber is inside `process_stream` as long as the processor's reader is not at its end; the client stops, and is
stopped, in `STATE_STOPPED`. -/
structure Sound (s : Client) : Prop where
  orderly : s.streamProcessor.Orderly
  waiters : s.streamProcessor.waiters = 0
  tidy : s.streamProcessor.core.Tidy
  resting : s.streamProcessor.Resting
  main : s.main = .processing ↔ s.streamProcessor.core.reader ≠ .stopped
  settled : s.main = .processing ∨ s.phase = .running ∨ s.streamProcessor.core.state = .stopped
  phase : s.phase = .stopped → s.main = .stopped ∧ s.stopEvent = false
  stopEvent : s.stopEvent = true → s.main = .stopped

theorem sound_create : create.Sound :=
  ⟨ClientStreamProcessor.orderly_create, rfl, StreamProcessor.tidy_create, fun _ _ => rfl,
    ⟨nofun, fun h => absurd rfl h⟩, Or.inr (Or.inr rfl), fun _ => ⟨rfl, rfl⟩, nofun⟩

/-- The stream processor's part of the invariant. -/
theorem Sound.processor (h : s.Sound) {a : ClientStreamProcessor.Action} {c : ClientStreamProcessor}
    (hcalls : ∀ o, a = .createRequestStream o → ∃ i, ¬ s.streamProcessor.core.owned i)
    (hdelete : ∀ o, a = .deleteRequestStream o → ¬ s.streamProcessor.core.Awaited o)
    (hc : s.streamProcessor.step a = some c) : c.Orderly ∧ c.waiters = 0 ∧ c.core.Tidy ∧ c.Resting := by
  refine ⟨h.orderly.step (fun _ => h.waiters) hc, ?_, ?_, h.resting.step h.orderly.sound hc⟩
  · have hw := h.waiters
    cases ClientStreamProcessor.outcome_of_step hc with
    | waits hst hall =>
      obtain ⟨i, hi⟩ := hcalls _ rfl
      exact absurd (hall i) hi
    | woken hpos => omega
    | _ => exact hw
  · exact ClientStreamProcessor.tidy_step h.orderly.sound h.tidy hdelete hc

theorem Sound.stopAsync (h : s.Sound) : s.streamProcessor.stopAsync.Orderly ∧ s.streamProcessor.stopAsync.waiters = 0 ∧
    s.streamProcessor.stopAsync.core.Tidy ∧ s.streamProcessor.stopAsync.Resting :=
  h.processor (a := .stopAsync) (fun _ h => nomatch h) (fun _ h => nomatch h) rfl

theorem Sound.reader_stopped (h : s.Sound) (hm : s.main ≠ .processing) : s.streamProcessor.core.reader = .stopped :=
  not_not.1 (mt h.main.2 hm)

theorem Sound.state_stopped (h : s.Sound) (hm : s.main ≠ .processing) (hp : s.phase ≠ .running) :
    s.streamProcessor.core.state = .stopped :=
  (h.settled.resolve_left hm).resolve_left hp

theorem Sound.stopEvent_ne (h : s.Sound) (hm : s.main ≠ .stopped) : s.stopEvent ≠ true := mt h.stopEvent hm

theorem Sound.phase_ne (h : s.Sound) (hm : s.main ≠ .stopped) : s.phase ≠ .stopped := fun hp => hm (h.phase hp).1

/-- **A step within the stream processor** keeps the client sound, with the fiber sent to connect again by the step that
ends the connection. -/
theorem Sound.within (h : s.Sound) {a : ClientStreamProcessor.Action} {c : ClientStreamProcessor}
    (hcalls : ∀ o, a = .createRequestStream o → ∃ i, ¬ s.streamProcessor.core.owned i)
    (hdelete : ∀ o, a = .deleteRequestStream o → ¬ s.streamProcessor.core.Awaited o)
    (ha : a ≠ .processStream ∧ a ≠ .stopAsync) (hc : s.streamProcessor.step a = some c) :
    Sound { s with
      streamProcessor := c
      main := if s.main = .processing ∧ c.core.reader = .stopped then .connecting else s.main } := by
  obtain ⟨horderly, hwaiters, htidy, hresting⟩ := h.processor hcalls hdelete hc
  by_cases hm : s.main = .processing
  · have hr := h.main.1 hm
    have hne : s.main ≠ .stopped := by simp [hm]
    have hphase := h.phase_ne hne
    have hevent := h.stopEvent_ne hne
    by_cases hr' : c.core.reader = .stopped
    · have hst := ClientStreamProcessor.state_of_ends h.orderly.sound hr hc hr'
      rw [if_pos ⟨hm, hr'⟩]
      exact ⟨horderly, hwaiters, htidy, hresting, iff_of_false (by simp) (not_not.2 hr'), Or.inr (Or.inr hst),
        fun hp => absurd hp hphase, fun he => absurd he hevent⟩
    · rw [if_neg (fun hand => hr' hand.2)]
      exact ⟨horderly, hwaiters, htidy, hresting, iff_of_true hm hr', Or.inl hm, fun hp => absurd hp hphase,
        fun he => absurd he hevent⟩
  · have heq := h.orderly.eq_of_stopped (h.reader_stopped hm) ha hc
    subst heq
    rw [if_neg (fun hand => hm hand.1)]
    exact h

theorem Sound.step {a : Action} (h : s.Sound) (hcalls : s.FewCalls a) (ht : s.Timely a) (hs : s.step a = some s') :
    s'.Sound := by
  cases outcome_of_step hs with
  | start hp =>
    obtain ⟨hm, he⟩ := h.phase hp
    have hr := h.reader_stopped (by simp [hm])
    exact ⟨h.orderly, h.waiters, h.tidy, h.resting, iff_of_false (by simp) (not_not.2 hr), Or.inr (Or.inl rfl), nofun,
      fun he' => by simp [he] at he'⟩
  | mainStart hm =>
    have hne : s.main ≠ .stopped := by simp [hm]
    have hne' : s.main ≠ .processing := by simp [hm]
    exact ⟨h.orderly, h.waiters, h.tidy, h.resting, iff_of_false (by simp) (not_not.2 (h.reader_stopped hne')),
      Or.inr (h.settled.resolve_left hne'), fun hp => absurd hp (h.phase_ne hne),
      fun he => absurd he (h.stopEvent_ne hne)⟩
  | discarded hm hp hr hst hc hr' hs' =>
    have hne : s.main ≠ .stopped := by simp [hm]
    obtain ⟨horderly, hwaiters, htidy, hresting⟩ := h.processor (fun _ h => by cases h) (fun _ h => by cases h) hc
    exact ⟨horderly, hwaiters, htidy, hresting, iff_of_false (by simp) (not_not.2 hr'), Or.inr (Or.inl hp),
      fun hp' => absurd hp' (h.phase_ne hne), fun he => absurd he (h.stopEvent_ne hne)⟩
  | processed hm hp hst hc hr =>
    have hne : s.main ≠ .stopped := by simp [hm]
    obtain ⟨horderly, hwaiters, htidy, hresting⟩ := h.processor (fun _ h => by cases h) (fun _ h => by cases h) hc
    exact ⟨horderly, hwaiters, htidy, hresting, iff_of_true rfl hr, Or.inl rfl,
      fun hp' => absurd hp' (h.phase_ne hne), fun he => absurd he (h.stopEvent_ne hne)⟩
  | connectNull hm hp =>
    have hne : s.main ≠ .processing := by simp [hm]
    exact ⟨h.orderly, h.waiters, h.tidy, h.resting, iff_of_false (by simp) (not_not.2 (h.reader_stopped hne)),
      Or.inr (h.settled.resolve_left hne), fun hp' => absurd hp' (h.phase_ne (by simp [hm])), fun _ => rfl⟩
  | within ha hc =>
    exact h.within (fun o ho => hcalls o (congrArg Action.streamProcessor ho))
      (fun o ho => ht.delete o (congrArg Action.streamProcessor ho)) ha hc
  | resetConnection =>
    obtain ⟨horderly, hwaiters, htidy, hresting⟩ := h.stopAsync
    refine ⟨horderly, hwaiters, htidy, hresting, h.main, ?_, h.phase, h.stopEvent⟩
    rcases ht.resetConnection rfl with hp | hm
    · exact Or.inr (Or.inl hp)
    · exact Or.inl hm
  | stop hp =>
    obtain ⟨horderly, hwaiters, htidy, hresting⟩ := h.stopAsync
    exact ⟨horderly, hwaiters, htidy, hresting, h.main, Or.inl (ht.stop rfl hp), nofun, h.stopEvent⟩
  | stopReturn hp he =>
    have hm := h.stopEvent he
    have hst := h.state_stopped (by simp [hm]) (by simp [hp])
    exact ⟨h.orderly, h.waiters, h.tidy, h.resting, h.main, Or.inr (Or.inr hst), fun _ => ⟨hm, rfl⟩, nofun⟩

/-! ## A stopped client -/

/-- The stream processor is as `mrpc_client_stream_processor_create` made it, but for the packets it made, which are all
in the pool, and for an event that `process_stream` sets before anything else. -/
structure AsNew (c : ClientStreamProcessor) : Prop where
  eq : c = { ClientStreamProcessor.create with core := { StreamProcessor.create with
    packetsPool := c.core.packetsPool
    streamsStopEvent := c.core.streamsStopEvent } }
  packets : (c.core.packetsPool.free.map Packet.addr : Multiset Nat) = Multiset.range c.core.packetsPool.created

theorem Sound.asNew (h : s.Sound) (hphase : s.phase = .stopped) : AsNew s.streamProcessor := by
  have hm := (h.phase hphase).1
  have hst := h.state_stopped (by simp [hm]) (by simp [hphase])
  obtain ⟨hr, hw, hq, hev, hcnt⟩ := h.orderly.phased.quiet hst
  have hcore := h.orderly.sound.core
  have hidle : ∀ o, ¬ s.streamProcessor.core.owned o := fun o ho => by
    have := hcore.activeCnt_pos ho
    omega
  refine ⟨?_, (h.tidy.clean hcore h.orderly.phased).stopped hst⟩
  have hactive : s.streamProcessor.core.active = fun _ => none := by
    funext r
    exact hcore.active_eq_none hcnt r
  have hstreams : s.streamProcessor.core.streams = fun _ => PacketStream.create := by
    funext o
    exact h.tidy.idle o (hidle o)
  have hfibers : s.streamProcessor.core.fibers = fun _ => .running := by
    funext o
    exact h.resting o (hidle o)
  have hids : s.streamProcessor.core.requestIds = id := by
    funext o
    exact h.orderly.sound.requestIds o
  have hwaiters := h.waiters
  generalize s.streamProcessor = c at *
  obtain ⟨⟨state, pool, queue, streams, ids, fibers, active, cnt, event, stopped, reader, writer⟩, waiters⟩ := c
  dsimp only at *
  subst hst hr hw hq hev hcnt hactive hstreams hfibers hids hwaiters
  rfl

/-- Since the client was started its fiber has yet to connect, and nothing has moved. -/
structure Unconnected (c : ClientStreamProcessor) (s : Client) : Prop where
  streamProcessor : s.streamProcessor = c
  phase : s.phase = .running
  main : s.main = .starting ∨ s.main = .connecting

theorem Unconnected.step {c : ClientStreamProcessor} (hc : c.Orderly) (hr : c.core.reader = .stopped) {a : Action}
    (h : Unconnected c s) (ha : a ≠ .connected ∧ a ≠ .resetConnection ∧ a ≠ .stop) (hs : s.step a = some s') :
    Unconnected c s' := by
  obtain ⟨rfl, hphase, hm⟩ := h
  cases outcome_of_step hs with
  | start hp | connectNull _ hp | stopReturn hp =>
    rw [hphase] at hp
    cases hp
  | mainStart => exact ⟨rfl, hphase, Or.inr rfl⟩
  | discarded | processed => exact absurd rfl ha.1
  | within hwithin hc' =>
    have heq := hc.eq_of_stopped hr hwithin hc'
    subst heq
    refine ⟨rfl, hphase, ?_⟩
    rw [if_neg (fun hand => by rcases hm with hm | hm <;> rw [hm] at hand <;> cases hand.1)]
    exact hm
  | resetConnection => exact absurd rfl ha.2.1
  | stop => exact absurd rfl ha.2.2

/-- **The first connection after the client was started again** is processed as a new client would process it. -/
theorem Sound.first_connection (h : s.Sound) (hphase : s.phase = .stopped) {bs : List Action} {t u : Client}
    (hbs : ∀ a ∈ bs, a ≠ .connected ∧ a ≠ .resetConnection ∧ a ≠ .stop)
    (hrun : Run.exec Client.step s (.start :: bs) = some t) (hu : t.step .connected = some u) :
    u.main = .processing ∧ ∃ fresh, ClientStreamProcessor.create.processStream = some fresh ∧
      u.streamProcessor = { fresh with
        core := { fresh.core with packetsPool := s.streamProcessor.core.packetsPool } } := by
  have hm := (h.phase hphase).1
  have hr : s.streamProcessor.core.reader = .stopped := h.reader_stopped (by simp [hm])
  have hnew := h.asNew hphase
  obtain ⟨s₁, hs₁, hrun⟩ := Run.exec_cons.1 hrun
  have hs₁' : Unconnected s.streamProcessor s₁ := by
    cases outcome_of_step hs₁ with
    | start => exact ⟨rfl, rfl, Or.inl rfl⟩
  have ht : Unconnected s.streamProcessor t := Run.invariant (P := Unconnected s.streamProcessor)
    (fun _ _ _ hP hC hs => hP.step h.orderly hr hC hs) bs hs₁'
    (Run.meets_of_forall fun a ha _ => hbs a ha) hrun
  have hst : t.streamProcessor.core.state = .stopped := by
    rw [ht.streamProcessor, hnew.eq]
    rfl
  cases outcome_of_step hu with
  | discarded _ _ _ hs =>
    rw [hst] at hs
    cases hs
  | processed _ _ _ hc _ =>
    refine ⟨rfl, _, rfl, ?_⟩
    rw [ht.streamProcessor, hnew.eq] at hc
    cases hc
    rfl

/-- **A stopped client is as good as new**, in every run of at most 256 calls at a time in which it was told to stop
within a connection, was reset only while it had a connection or was looking for one, and no call ended while the reader
waited to disconnect its stream. -/
theorem asNew_of_timely (as : List Action) (s : Client)
    (hu : Run.Meets step (fun s a => s.FewCalls a ∧ s.Timely a) create as) (hrun : Run.exec step create as = some s)
    (hphase : s.phase = .stopped) :
    AsNew s.streamProcessor ∧ ∀ (bs : List Action) (t u : Client),
      (∀ a ∈ bs, a ≠ .connected ∧ a ≠ .resetConnection ∧ a ≠ .stop) → Run.exec step s (.start :: bs) = some t →
        t.step .connected = some u → u.main = .processing ∧ ∃ fresh,
          ClientStreamProcessor.create.processStream = some fresh ∧ u.streamProcessor = { fresh with
            core := { fresh.core with packetsPool := s.streamProcessor.core.packetsPool } } := by
  have h : s.Sound := Run.invariant (P := Sound) (fun _ _ _ h hC hs => h.step hC.1 hC.2 hs) as sound_create hu hrun
  exact ⟨h.asNew hphase, fun bs t u hbs hrun hu => h.first_connection hphase hbs hrun hu⟩

/-- Neither a stop nor the beginning or the end of a call. -/
def plain : Action → Bool
  | .stop | .resetConnection => false
  | .streamProcessor (.createRequestStream _) | .streamProcessor (.deleteRequestStream _) => false
  | _ => true

theorem timely_of_plain {a : Action} (h : plain a = true) : s.FewCalls a ∧ s.Timely a := by
  refine ⟨fun o ha => ?_, fun ha => ?_, fun ha => ?_, fun o ha => ?_⟩
  all_goals
    subst ha
    cases h

theorem meets_of_plain {as : List Action} (h : ∀ a ∈ as, plain a = true) :
    Run.Meets step (fun s a => s.FewCalls a ∧ s.Timely a) s as :=
  Run.meets_of_forall fun a ha _ => timely_of_plain (h a ha)

/-- The client connects. -/
def connect : List Action := [.start, .mainStart, .connected]

/-- The connection breaks, its stream processor winds up, and the connector returns `NULL`. -/
def windUp : List Action :=
  .streamProcessor (.event .reader) :: .streamProcessor (.event .readerFail) ::
    (List.replicate 258 (.streamProcessor (.event .reader)) ++ [.streamProcessor (.event .writer),
      .streamProcessor (.event .reader), .connectNull, .stopReturn])

set_option maxRecDepth 100000 in
/-- The client is stopped within a connection, and started again. -/
theorem asNew_of_timely_connect : ∃ s t u, Run.exec step create (connect ++ .stop :: windUp) = some s ∧
    AsNew s.streamProcessor ∧ Run.exec step s [.start, .mainStart] = some t ∧ t.step .connected = some u ∧
    u.main = .processing := by
  have hmeets : Run.Meets step (fun s a => s.FewCalls a ∧ s.Timely a) create (connect ++ .stop :: windUp) := by
    refine Run.meets_append_of connect rfl (meets_of_plain (by decide)) ⟨⟨nofun, fun _ _ => rfl, nofun, nofun⟩, ?_⟩
    exact fun s _ => meets_of_plain (by decide +kernel)
  have hnew := asNew_of_timely (connect ++ .stop :: windUp) _ hmeets rfl rfl
  exact ⟨_, _, _, rfl, hnew.1, rfl, rfl, (hnew.2 [.mainStart] _ _ (by simp) rfl rfl).1⟩

/-- **Stopped while it connects, the client keeps the order to stop**: its processor would discard the next connection. -/
theorem not_asNew_stopConnecting : ¬ ∀ (as : List Action) (s : Client), Run.Meets step FewCalls create as →
    Run.exec step create as = some s → s.phase = .stopped → AsNew s.streamProcessor := by
  intro h
  have hmeets : Run.Meets step FewCalls create [.start, .mainStart, .stop, .connectNull, .stopReturn] :=
    (Run.meets_iff _).2 fun before a t hle _ o ha => by
      subst ha
      have hmem := hle.subset (List.mem_append_right before List.mem_cons_self)
      simp at hmem
  have hstate := congrArg (fun c => c.core.state) (h _ _ hmeets rfl rfl).eq
  cases hstate

end Client
end Mrpc
