import MultiplexingRpc.Client
import MultiplexingRpc.ClientAssertions
/-!
# MrpcClient — the client with its assertions (`mrpc_client.c`)

`Client` once more, with the connector, the stream that its fiber has in hand, the callers that try again, and every
`ff_assert` where the source has it, those of the stream processor included.  The client does what `Client` does, none of
the assertions fails, and the fiber deletes each stream it got from the connector before it asks for the next.
-/
namespace Mrpc

/-- `struct mrpc_client`.  `main` and `stream` are where `main_client_func` stands and the stream it has in hand,
`sleeping` the tries left to those who sleep inside `mrpc_client_create_request_stream`, `phase` where the caller of
`mrpc_client_start` and `mrpc_client_stop` stands; and the streams that the fiber got and deleted so far. -/
structure MrpcClient where
  session : ClientSession
  stopEvent : Bool
  streamConnector : Option Nat
  main : MainClient
  stream : Option Nat
  sleeping : List Nat
  phase : RunPhase
  openedStreams : List Nat
  deletedStreams : List Nat

namespace MrpcClient

def maxCreateRequestStreamTriesCnt : Nat := 3

/-- A client that was just made around a stream processor. -/
def initial (session : ClientSession) : MrpcClient where
  session := session
  stopEvent := false
  streamConnector := none
  main := .stopped
  stream := none
  sleeping := []
  phase := .stopped
  openedStreams := []
  deletedStreams := []

/-- `mrpc_client_create`. -/
def create : Except Fault MrpcClient := do
  let session ← ClientSession.create
  .ok (initial session)

/-- A function of the stream processor is called, or one of its fibers takes a step. -/
def callProcessor (x : MrpcClient) (c : ClientProcessor.Call) : Except Fault (Option MrpcClient) := do
  let session ← x.session.checked c
  .ok (session.map fun session => { x with session := session })

/-- `mrpc_client_start`. -/
def start (x : MrpcClient) (streamConnector : Option Nat) : Except Fault MrpcClient := do
  ffAssert (streamConnector ≠ none)
  ffAssert (x.streamConnector = none)
  .ok { x with streamConnector := streamConnector, main := .starting, phase := .running }

/-- `main_client_func` up to its loop. -/
def mainStart (x : MrpcClient) : Except Fault MrpcClient := do
  ffAssert (x.streamConnector ≠ none)
  .ok { x with main := .connecting }

/-- The fiber behind a step of the stream processor: once `process_stream` has returned it deletes the stream and connects
again. -/
def afterStep (x : MrpcClient) : MrpcClient :=
  if x.main = .processing ∧ x.session.processor.core.reader = .stopped then
    { x with main := .connecting, stream := none, deletedStreams := x.stream.toList ++ x.deletedStreams }
  else x

/-- The loop of `main_client_func` with a stream from the connector. -/
def connected (x : MrpcClient) (stream : Nat) : Except Fault (Option MrpcClient) := do
  let processed ← x.callProcessor (.processStream (some stream))
  .ok (processed.map fun x =>
    { x with main := .processing, stream := some stream, openedStreams := stream :: x.openedStreams }.afterStep)

/-- A turn of the loop of `mrpc_client_create_request_stream` with `triesCnt` tries left; the stream processor returns
`NULL` unless it works. -/
def createRequestStream (x : MrpcClient) (triesCnt : Nat) (o : StreamNo) : Except Fault (Option MrpcClient) := do
  let called ← x.callProcessor (.createRequestStream o)
  .ok (called.map fun y =>
    if x.session.processor.core.state = .working ∨ triesCnt - 1 = 0 then y
    else { y with sleeping := (triesCnt - 1) :: y.sleeping })

/-- `mrpc_client_stop` up to its wait. -/
def stop (x : MrpcClient) : Except Fault (Option MrpcClient) := do
  ffAssert (x.streamConnector ≠ none)
  let told ← x.callProcessor .stopAsync
  .ok (told.map fun x => { x with phase := .stopping })

/-- `mrpc_client_delete`. -/
def delete (x : MrpcClient) : Except Fault (Option MrpcClient) := do
  ffAssert (x.streamConnector = none)
  x.callProcessor .delete

/-- What may happen next.  `connected stream`: the connector returns a stream; `processor c`: a fiber of the stream
processor or a caller takes a step within it; `retry triesCnt o`: somebody who slept with so many tries left goes on. -/
inductive Call where
  | start (streamConnector : Option Nat)
  | mainStart
  | connected (stream : Nat)
  | connectNull
  | processor (c : ClientProcessor.Call)
  | createRequestStream (o : StreamNo)
  | retry (triesCnt : Nat) (o : StreamNo)
  | resetConnection
  | stop
  | stopReturn
  | delete
  deriving DecidableEq, Repr

/-- The client's own calls of its stream processor are no steps within it. -/
def Within : ClientProcessor.Call → Bool
  | .processStream _ | .createRequestStream _ | .stopAsync | .delete => false
  | _ => true

/-- The client with its assertions; none where a call cannot come next. -/
def call (x : MrpcClient) : Call → Except Fault (Option MrpcClient)
  | .start streamConnector => some <$> x.start streamConnector
  | .mainStart => if x.main = .starting then some <$> x.mainStart else .ok none
  | .connected stream => if x.main = .connecting ∧ x.phase = .running then x.connected stream else .ok none
  | .connectNull =>
    if x.main = .connecting ∧ x.phase = .stopping then .ok (some { x with stopEvent := true, main := .stopped })
    else .ok none
  | .processor c =>
    if Within c = true then do
      let moved ← x.callProcessor c
      .ok (moved.map afterStep)
    else .ok none
  | .createRequestStream o => x.createRequestStream maxCreateRequestStreamTriesCnt o
  | .retry triesCnt o =>
    if triesCnt ∈ x.sleeping then { x with sleeping := x.sleeping.erase triesCnt }.createRequestStream triesCnt o
    else .ok none
  | .resetConnection => x.callProcessor .stopAsync
  | .stop => x.stop
  | .stopReturn =>
    if x.phase = .stopping ∧ x.stopEvent then
      .ok (some { x with stopEvent := false, streamConnector := none, phase := .stopped })
    else .ok none
  | .delete => x.delete

/-- The step of a run. -/
def step (x : MrpcClient) (c : Call) : Option MrpcClient :=
  match x.call c with
  | .ok y => y
  | .error _ => none

/-- The streams that the connector returns. -/
def Call.opened : Call → List Nat
  | .connected stream => [stream]
  | _ => []

/-- What the users of a client keep to: it is started with a connector, when it is not running, stopped when it is, and
deleted when it is not and nobody is about to try again; and they use request streams as `ClientSession.Disciplined`
says. -/
def Disciplined (x : MrpcClient) : Call → Prop
  | .start streamConnector => x.phase = .stopped ∧ streamConnector ≠ none
  | .processor c => x.session.Disciplined c
  | .resetConnection => x.session.Disciplined .stopAsync
  | .stop => x.phase = .running ∧ x.session.Disciplined .stopAsync
  | .delete => x.phase = .stopped ∧ x.sleeping = []
  | _ => True

end MrpcClient

namespace ClientSession

/-- **A call takes a step of the stream processor**, or only checks. -/
theorem Safe.moves {x x' : ClientSession} (h : x.Safe) {c : ClientProcessor.Call} (hu : x.unchecked c = some x') :
    x' = x ∨ ∃ a, c.action = some a ∧ x.processor.client.client.step a = some x'.processor.client.client ∧
      x'.processor.stream = x.processor.streamAfter c x'.processor.client := by
  obtain ⟨processor, hplain, rfl⟩ := Option.map_eq_some_iff.1 hu
  unfold ClientProcessor.plain at hplain
  cases ha : c.action with
  | none =>
    rw [ha] at hplain
    obtain ⟨-, hplain⟩ := Option.ite_none_right_eq_some.1 hplain
    cases hplain
    exact Or.inl rfl
  | some a =>
    rw [ha] at hplain
    obtain ⟨client, hclient, rfl⟩ := Option.map_eq_some_iff.1 hplain
    exact Or.inr ⟨a, rfl, (h.pooled.step_client hclient).1, rfl⟩

end ClientSession

namespace MrpcClient

/-! ## What it has to do with `Client` -/

/-- The client without what `Client` leaves out. -/
def toClient (x : MrpcClient) : Client := ⟨x.session.processor.client.client, x.stopEvent, x.main, x.phase⟩

variable {x y : MrpcClient}

/-- What holds after every run: the fiber has a stream in hand exactly while `process_stream` runs, the connector is there
while the client is started, and each stream that was opened was deleted, but for the one in hand. -/
structure Sound (x : MrpcClient) : Prop where
  safe : x.session.Safe
  main : x.main = .processing ↔ x.session.processor.core.reader ≠ .stopped
  stream : x.session.processor.stream = x.stream
  streamConnector : x.streamConnector = none ↔ x.phase = .stopped
  phase : x.phase = .stopped → x.main = .stopped ∧ x.stopEvent = false
  stopEvent : x.stopEvent = true → x.main = .stopped
  streams : x.openedStreams = x.stream.toList ++ x.deletedStreams
  sleeping : ∀ k ∈ x.sleeping, 0 < k ∧ k < maxCreateRequestStreamTriesCnt

theorem sound_create : ∃ x, create = .ok x ∧ x.Sound ∧ x.toClient = Client.create := by
  obtain ⟨session, hcreate, hsafe⟩ := ClientSession.safe_create
  have hclient : session.processor.client.client = .create ∧ session.processor.stream = none := by
    obtain ⟨client, hclient, -, heq⟩ := PooledClient.pooled_create
    rw [ClientSession.create, ClientProcessor.create, hclient, ok_bind, ok_bind] at hcreate
    cases hcreate
    exact ⟨heq, rfl⟩
  refine ⟨initial session, ?_, ?_, ?_⟩
  · rw [create, hcreate, ok_bind]
  · constructor
    · exact hsafe
    · refine iff_of_false (by simp [initial]) (not_not.2 ?_)
      show session.processor.client.client.core.reader = .stopped
      rw [hclient.1]
      rfl
    · exact hclient.2
    · exact iff_of_true rfl rfl
    · exact fun _ => ⟨rfl, rfl⟩
    · exact fun h => by cases h
    · rfl
    · exact fun k hk => by cases hk
  · rw [toClient, Client.create, ← hclient.1]
    rfl

/-- A call goes on to `y`, as the model may, and opens some streams. -/
structure Goes (x : MrpcClient) (opened : List Nat) (y : MrpcClient) : Prop where
  sound : y.Sound
  simulated : ∃ as, Run.exec Client.step x.toClient as = some y.toClient
  opened : y.openedStreams = opened ++ x.openedStreams

theorem Goes.refl (h : x.Sound) : Goes x [] x := ⟨h, ⟨[], rfl⟩, rfl⟩

theorem Goes.one {opened : List Nat} {a : Client.Action} (h : y.Sound) (hstep : Client.step x.toClient a = some y.toClient)
    (hopened : y.openedStreams = opened ++ x.openedStreams) : Goes x opened y :=
  ⟨h, ⟨[a], Run.exec_cons_of [] hstep⟩, hopened⟩

theorem Goes.trans {z : MrpcClient} {opened opened' : List Nat} (h : Goes x opened y) (h' : Goes y opened' z) :
    Goes x (opened' ++ opened) z := by
  obtain ⟨as, has⟩ := h.simulated
  obtain ⟨bs, hbs⟩ := h'.simulated
  refine ⟨h'.sound, ⟨as ++ bs, ?_⟩, ?_⟩
  · rw [Run.exec_append_of bs as has]
    exact hbs
  · rw [h'.opened, h.opened, List.append_assoc]

namespace Sound

theorem main_ne (h : x.Sound) (hphase : x.main ≠ .stopped) : x.phase ≠ .stopped ∧ x.stopEvent ≠ true :=
  ⟨fun hp => hphase (h.phase hp).1, fun he => hphase (h.stopEvent he)⟩

theorem reader_stopped (h : x.Sound) (hm : x.main ≠ .processing) : x.session.processor.core.reader = .stopped :=
  not_not.1 (mt h.main.2 hm)

theorem stream_none (h : x.Sound) (hm : x.main ≠ .processing) : x.stream = none := by
  rw [← h.stream]
  exact h.safe.stopped (h.reader_stopped hm)

end Sound

theorem callProcessor_eq (h : x.Sound) {c : ClientProcessor.Call} (hd : x.session.Disciplined c) :
    x.callProcessor c = .ok ((x.session.unchecked c).map fun session => { x with session := session }) := by
  rw [callProcessor, ClientSession.checked, h.safe.call_eq hd, ok_bind, ok_bind]
  rfl

/-! ## Calls of the stream processor -/

namespace Sound

/-- **A step within the stream processor**, behind which the fiber connects again if the connection has ended. -/
theorem moved (h : x.Sound) {c : ClientProcessor.Call} (hd : x.session.Disciplined c)
    (hne : ∀ a, c.action = some a → a ≠ .processStream ∧ a ≠ .stopAsync) {session : ClientSession}
    (hu : x.session.unchecked c = some session) : Goes x [] { x with session := session }.afterStep := by
  rcases h.safe.moves hu with rfl | ⟨a, ha, hstep, hstream⟩
  · have heq : x.afterStep = x := if_neg fun hand => h.main.1 hand.1 hand.2
    rw [show { x with session := x.session } = x from rfl, heq]
    exact Goes.refl h
  have hwithin := hne a ha
  have hsafe := h.safe.step hd hu
  have hkept : session.processor.core.reader ≠ .stopped → session.processor.stream = x.stream := fun hr => by
    rw [hstream, ← h.stream]
    unfold ClientProcessor.streamAfter
    refine (if_neg hr).trans ?_
    cases c with
    | processStream => exact absurd (Option.some.inj ha).symm hwithin.1
    | _ => rfl
  have hmodel : Client.step x.toClient (.streamProcessor a) = some
      { x.toClient with
        streamProcessor := session.processor.client.client
        main := if x.main = .processing ∧ session.processor.core.reader = .stopped then .connecting else x.main } := by
    rw [Client.step, Client.stepStreamProcessor, if_pos hwithin]
    show Option.map _ (x.session.processor.client.client.step a) = _
    rw [hstep]
    rfl
  refine Goes.one (a := .streamProcessor a) ?_ ?_ ?_
  · by_cases hm : x.main = .processing
    · obtain ⟨hphase, hevent⟩ := h.main_ne (by simp [hm])
      by_cases hr : session.processor.core.reader = .stopped
      · rw [afterStep, if_pos ⟨hm, hr⟩]
        exact { h with
          safe := hsafe
          main := iff_of_false (by simp) (not_not.2 hr)
          stream := hsafe.stopped hr
          phase := fun hp => absurd hp hphase
          stopEvent := fun he => absurd he hevent
          streams := h.streams }
      · rw [afterStep, if_neg (fun hand => hr hand.2)]
        exact { h with safe := hsafe, main := iff_of_true hm hr, stream := hkept hr }
    · have hr := h.reader_stopped hm
      have heq := h.safe.orderly.eq_of_stopped hr hwithin hstep
      have hr' : session.processor.core.reader = .stopped := by
        rw [ClientProcessor.core, heq]
        exact hr
      rw [afterStep, if_neg (fun hand => hm hand.1)]
      exact { h with
        safe := hsafe
        main := iff_of_false hm (not_not.2 hr')
        stream := (hsafe.stopped hr').trans (h.stream_none hm).symm }
  · rw [hmodel]
    unfold afterStep
    dsimp only [toClient]
    split <;> rfl
  · unfold afterStep
    split <;> rfl

/-- **A client that is not running can be started.** -/
theorem start (h : x.Sound) (hp : x.phase = .stopped) {streamConnector : Option Nat} (hconnector : streamConnector ≠ none) :
    x.start streamConnector
      = .ok { x with streamConnector := streamConnector, main := .starting, phase := .running } ∧
    Sound { x with streamConnector := streamConnector, main := .starting, phase := .running } := by
  obtain ⟨hm, he⟩ := h.phase hp
  constructor
  · rw [MrpcClient.start, ffAssert_of hconnector, ok_bind, ffAssert_of (h.streamConnector.2 hp), ok_bind]
  · exact { h with
      main := iff_of_false (by simp) (not_not.2 (h.reader_stopped (by simp [hm])))
      streamConnector := iff_of_false hconnector (by simp)
      phase := (fun hp' => by cases hp')
      stopEvent := fun he' => by rw [he] at he'; cases he' }

/-- **The stream processor is told to stop.** -/
theorem stopAsync (h : x.Sound) (hd : x.session.Disciplined .stopAsync) :
    ∃ session, x.callProcessor .stopAsync = .ok (some { x with session := session }) ∧
      session.processor.client.client = x.session.processor.client.client.stopAsync ∧
      Sound { x with session := session } := by
  let session : ClientSession := ⟨⟨⟨x.session.processor.client.client.stopAsync, x.session.processor.client.created,
    x.session.processor.client.requestStreamsBitmap⟩, x.session.processor.streamAfter .stopAsync
      ⟨x.session.processor.client.client.stopAsync, x.session.processor.client.created,
        x.session.processor.client.requestStreamsBitmap⟩⟩, x.session.usage⟩
  have hu : x.session.unchecked .stopAsync = some session := rfl
  have hsafe := h.safe.step hd hu
  refine ⟨session, ?_, rfl, { h with safe := hsafe, stream := ?_ }⟩
  · rw [callProcessor_eq h hd, hu]
    rfl
  · show (if x.session.processor.core.reader = .stopped then none else x.session.processor.stream) = x.stream
    by_cases hr : x.session.processor.core.reader = .stopped
    · rw [if_pos hr, ← h.stream]
      exact (h.safe.stopped hr).symm
    · rw [if_neg hr]
      exact h.stream

/-- **A client that is running can be told to stop.** -/
theorem stop (h : x.Sound) (hp : x.phase = .running) (hd : x.session.Disciplined .stopAsync) :
    ∃ session, x.stop = .ok (some { x with session := session, phase := .stopping }) ∧
      session.processor.client.client = x.session.processor.client.client.stopAsync ∧
      Sound { x with session := session, phase := .stopping } := by
  obtain ⟨session, hcall, hclient, hsound⟩ := h.stopAsync hd
  have hconnector : x.streamConnector ≠ none := fun hnone => by
    have hstopped := h.streamConnector.1 hnone
    rw [hp] at hstopped
    cases hstopped
  refine ⟨session, ?_, hclient, { hsound with
    streamConnector := iff_of_false hconnector (by simp)
    phase := fun hp' => by cases hp' }⟩
  rw [MrpcClient.stop, ffAssert_of hconnector, ok_bind, hcall, ok_bind]
  rfl

/-- **The fiber hands a stream to the stream processor**, which refuses it if told to stop. -/
theorem connected (h : x.Sound) (hm : x.main = .connecting) (hp : x.phase = .running) (stream : Nat) :
    ∃ y, x.connected stream = .ok (some y) ∧ Goes x [stream] y := by
  have hne : x.main ≠ .processing := by simp [hm]
  obtain ⟨hphase, hevent⟩ := h.main_ne (by simp [hm])
  have hr : x.session.processor.client.client.core.reader = .stopped := h.reader_stopped hne
  have hst : x.session.processor.client.client.core.state ≠ .working := (h.safe.orderly.quiet hr).1
  have hd : x.session.Disciplined (.processStream (some stream)) :=
    ⟨by simp, fun a ha hleaves => by cases ha; exact absurd hleaves.1 hst⟩
  -- the stream processor takes the stream in either state
  obtain ⟨c, hc⟩ : ∃ c, x.session.processor.client.client.processStream = some c := by
    unfold ClientStreamProcessor.processStream
    rw [hr]
    cases hstate : x.session.processor.client.client.core.state with
    | working => exact absurd hstate hst
    | stopInitiated => exact ⟨_, rfl⟩
    | stopped => exact ⟨_, rfl⟩
  let client : PooledClient := ⟨c, x.session.processor.client.created, x.session.processor.client.requestStreamsBitmap⟩
  let session : ClientSession := ⟨⟨client, x.session.processor.streamAfter (.processStream (some stream)) client⟩,
    x.session.usage⟩
  have hu : x.session.unchecked (.processStream (some stream)) = some session := by
    have hplain : x.session.processor.plain (.processStream (some stream)) = some session.processor := by
      show Option.map _ (Option.map _ x.session.processor.client.client.processStream) = _
      rw [hc]
      rfl
    rw [ClientSession.unchecked, hplain]
    rfl
  have hsafe := h.safe.step hd hu
  have hcall : x.callProcessor (.processStream (some stream)) = .ok (some { x with session := session }) := by
    rw [callProcessor_eq h hd, hu]
    rfl
  have hstreams : x.openedStreams = x.deletedStreams := by
    rw [h.streams, h.stream_none hne]
    rfl
  have hmodel : Client.step x.toClient .connected = some { x.toClient with
      streamProcessor := c, main := if c.core.reader = .stopped then .connecting else .processing } := by
    rw [Client.step, if_pos ⟨hm, hp⟩, Client.processStream]
    show Option.map _ x.session.processor.client.client.processStream = _
    rw [hc]
    rfl
  rw [MrpcClient.connected, hcall, ok_bind]
  refine ⟨_, rfl, ?_⟩
  dsimp only
  by_cases hr' : c.core.reader = .stopped
  · rw [afterStep, if_pos ⟨rfl, hr'⟩]
    rw [if_pos hr'] at hmodel
    exact Goes.one { h with
      safe := hsafe
      main := iff_of_false (by simp) (not_not.2 hr')
      stream := hsafe.stopped hr'
      phase := fun hp => absurd hp hphase
      stopEvent := fun he => absurd he hevent
      streams := congrArg (stream :: ·) hstreams } hmodel rfl
  · rw [afterStep, if_neg (fun hand => hr' hand.2)]
    rw [if_neg hr'] at hmodel
    exact Goes.one { h with
      safe := hsafe
      main := iff_of_true rfl hr'
      stream := if_neg hr'
      phase := fun hp => absurd hp hphase
      stopEvent := fun he => absurd he hevent
      streams := congrArg (stream :: ·) hstreams } hmodel rfl

/-- **A try to create a request stream**, after which the caller sleeps unless it was the last. -/
theorem createRequestStream (h : x.Sound) {triesCnt : Nat} (htries : triesCnt ≤ maxCreateRequestStreamTriesCnt)
    (o : StreamNo) : ∃ r, x.createRequestStream triesCnt o = .ok r ∧ ∀ y, r = some y → Goes x [] y := by
  -- nothing that a try does takes the processor out of its state, or its reader
  have hkept : ∀ c, x.session.processor.client.client.step (.createRequestStream o) = some c →
      c.core.state = x.session.processor.client.client.core.state ∧
      c.core.reader = x.session.processor.client.client.core.reader := fun c hc => by
    cases ClientStreamProcessor.outcome_of_step hc with
    | refused | created | waits => exact ⟨rfl, rfl⟩
  have hd : x.session.Disciplined (.createRequestStream o) := by
    refine ⟨trivial, fun a ha hleaves => ?_⟩
    cases ha
    obtain ⟨hst, c, hc, hne⟩ := hleaves
    exact absurd ((hkept c hc).1.trans hst) hne
  rw [MrpcClient.createRequestStream, callProcessor_eq h hd, ok_bind]
  cases hu : x.session.unchecked (.createRequestStream o) with
  | none => exact ⟨none, rfl, fun y hy => by cases hy⟩
  | some session =>
    have hsame : ({ x with session := session } : MrpcClient).afterStep = { x with session := session } := by
      refine if_neg fun hand => ?_
      rcases h.safe.moves hu with rfl | ⟨a, ha, hstep, -⟩
      · exact h.main.1 hand.1 hand.2
      · cases ha
        exact h.main.1 hand.1 ((hkept _ hstep).2.symm.trans hand.2)
    have hgoes := h.moved hd (fun a ha => by cases ha; simp) hu
    rw [hsame] at hgoes
    refine ⟨_, rfl, fun y hy => ?_⟩
    obtain rfl := Option.some.inj hy
    dsimp only
    split
    · exact hgoes
    · rename_i hmore
      refine { hgoes with sound := { hgoes.sound with sleeping := fun k hk => ?_ } }
      rcases List.mem_cons.1 hk with rfl | hk
      · have hlt : triesCnt - 1 ≠ 0 := fun hzero => hmore (Or.inr hzero)
        omega
      · exact h.sleeping k hk

/-! ## Every call -/

/-- **A client that is not running can be deleted**, with its stream processor. -/
theorem delete (h : x.Sound) (hp : x.phase = .stopped) : x.delete = .ok none := by
  have hd : x.session.Disciplined .delete := ⟨trivial, fun a ha => by cases ha⟩
  rw [MrpcClient.delete, ffAssert_of (h.streamConnector.2 hp), ok_bind, callProcessor_eq h hd]
  rfl

/-- **No assertion fails in a call**, and what it does is a run of the model. -/
theorem call_spec (h : x.Sound) {c : Call} (hd : x.Disciplined c) :
    ∃ r, x.call c = .ok r ∧ ∀ y, r = some y → Goes x c.opened y := by
  have hnone : ∀ y : MrpcClient, (none : Option MrpcClient) = some y → Goes x c.opened y := fun y hy => by cases hy
  have hsome : ∀ {y : MrpcClient}, Goes x c.opened y → ∀ z, some y = some z → Goes x c.opened z := fun hy z hz => by
    cases hz
    exact hy
  cases c with
  | start streamConnector =>
    obtain ⟨hp, hconnector⟩ := hd
    obtain ⟨hrun, hsound⟩ := h.start hp hconnector
    simp only [call]
    rw [hrun]
    exact ⟨_, rfl, hsome (Goes.one (a := .start) hsound (if_pos hp) rfl)⟩
  | mainStart =>
    simp only [call]
    by_cases hm : x.main = .starting
    · obtain ⟨hphase, hevent⟩ := h.main_ne (by simp [hm])
      rw [if_pos hm, MrpcClient.mainStart, ffAssert_of (mt h.streamConnector.1 hphase), ok_bind]
      exact ⟨_, rfl, hsome (Goes.one (a := .mainStart) { h with
        main := iff_of_false (by simp) (not_not.2 (h.reader_stopped (by simp [hm])))
        phase := fun hp => absurd hp hphase
        stopEvent := fun he => absurd he hevent } (if_pos hm) rfl)⟩
    · rw [if_neg hm]
      exact ⟨none, rfl, hnone⟩
  | connected stream =>
    simp only [call]
    by_cases hg : x.main = .connecting ∧ x.phase = .running
    · obtain ⟨y, hy, hgoes⟩ := h.connected hg.1 hg.2 stream
      rw [if_pos hg, hy]
      exact ⟨_, rfl, hsome hgoes⟩
    · rw [if_neg hg]
      exact ⟨none, rfl, hnone⟩
  | connectNull =>
    simp only [call]
    by_cases hg : x.main = .connecting ∧ x.phase = .stopping
    · rw [if_pos hg]
      exact ⟨_, rfl, hsome (Goes.one (a := .connectNull) { h with
        main := iff_of_false (by simp) (not_not.2 (h.reader_stopped (by simp [hg.1])))
        phase := fun hp => by rw [hg.2] at hp; cases hp
        stopEvent := fun _ => rfl } (if_pos hg) rfl)⟩
    · rw [if_neg hg]
      exact ⟨none, rfl, hnone⟩
  | processor c =>
    simp only [call]
    by_cases hc : Within c = true
    · have hne : ∀ a, c.action = some a → a ≠ .processStream ∧ a ≠ .stopAsync := fun a ha => by
        cases c with
        | processStream | createRequestStream | stopAsync | delete => cases hc
        | writerStart => cases ha
        | event | wake | receive | deleteRequestStream =>
          cases ha
          exact ⟨by simp, by simp⟩
      rw [if_pos hc, callProcessor_eq h hd, ok_bind]
      cases hu : x.session.unchecked c with
      | none => exact ⟨none, rfl, hnone⟩
      | some session => exact ⟨_, rfl, hsome (h.moved hd hne hu)⟩
    · rw [if_neg hc]
      exact ⟨none, rfl, hnone⟩
  | createRequestStream o => exact h.createRequestStream (le_refl _) o
  | retry triesCnt o =>
    simp only [call]
    by_cases hmem : triesCnt ∈ x.sleeping
    · have herased : Sound { x with sleeping := x.sleeping.erase triesCnt } :=
        { h with sleeping := fun k hk => h.sleeping k (List.mem_of_mem_erase hk) }
      obtain ⟨r, hr, hgoes⟩ := herased.createRequestStream (h.sleeping triesCnt hmem).2.le o
      rw [if_pos hmem]
      exact ⟨r, hr, fun y hy => ⟨(hgoes y hy).sound, (hgoes y hy).simulated, (hgoes y hy).opened⟩⟩
    · rw [if_neg hmem]
      exact ⟨none, rfl, hnone⟩
  | resetConnection =>
    obtain ⟨session, hcall, hclient, hsound⟩ := h.stopAsync hd
    refine ⟨_, hcall, hsome (Goes.one (a := .resetConnection) hsound ?_ rfl)⟩
    rw [Client.step, toClient, toClient, hclient]
  | stop =>
    obtain ⟨hp, hd⟩ := hd
    obtain ⟨session, hrun, hclient, hsound⟩ := h.stop hp hd
    refine ⟨_, hrun, hsome (Goes.one (a := .stop) hsound ?_ rfl)⟩
    rw [Client.step]
    refine (if_pos hp).trans ?_
    dsimp only [toClient]
    rw [hclient]
  | stopReturn =>
    simp only [call]
    by_cases hg : x.phase = .stopping ∧ x.stopEvent = true
    · have hm := h.stopEvent hg.2
      rw [if_pos hg]
      exact ⟨_, rfl, hsome (Goes.one (a := .stopReturn) { h with
        streamConnector := iff_of_true rfl rfl
        phase := fun _ => ⟨hm, rfl⟩
        stopEvent := fun he => by cases he } (if_pos hg) rfl)⟩
    · rw [if_neg hg]
      exact ⟨none, rfl, hnone⟩
  | delete => exact ⟨none, h.delete hd.1, hnone⟩

theorem step (h : x.Sound) {c : Call} (hd : x.Disciplined c) (hstep : x.step c = some y) : Goes x c.opened y := by
  obtain ⟨r, hcall, hgoes⟩ := h.call_spec hd
  rw [MrpcClient.step, hcall] at hstep
  exact hgoes y hstep

/-- A run of calls. -/
theorem run : ∀ (cs : List Call) {x y : MrpcClient}, x.Sound → Run.Meets MrpcClient.step Disciplined x cs →
    Run.exec MrpcClient.step x cs = some y → Goes x (cs.reverse.flatMap Call.opened) y
  | [], x, y, h, _, hrun => by
    cases hrun
    exact Goes.refl h
  | c :: cs, x, y, h, hd, hrun => by
    obtain ⟨z, hz, hrun⟩ := Run.exec_cons.1 hrun
    have hgoes := h.step hd.1 hz
    rw [List.reverse_cons, List.flatMap_append, List.flatMap_singleton]
    exact hgoes.trans (run cs hgoes.sound (hd.2 z hz) hrun)

end Sound

/-- **No assertion of the client fails**, nor one of its stream processor, in any order of the steps of its fibers and
callers and over any number of connections, starts and stops: it does what `Client` does; its fiber deletes the streams
it got one by one, each before it gets the next; a call tries at most three times; and a client that is not running has
no stream in hand, no connector and no call. -/
theorem runs_without_fault : ∃ x₀, create = .ok x₀ ∧ ∀ (cs : List Call) (x : MrpcClient),
    Run.Meets step Disciplined x₀ cs → Run.exec step x₀ cs = some x →
      (∀ c, Disciplined x c → ∃ r, x.call c = .ok r) ∧
      (∃ as, Run.exec Client.step Client.create as = some x.toClient) ∧
      cs.reverse.flatMap Call.opened = x.stream.toList ++ x.deletedStreams ∧
      (x.stream = none ↔ x.session.processor.core.reader = .stopped) ∧
      (∀ k ∈ x.sleeping, 0 < k ∧ k < 3) ∧
      (x.phase = .stopped → x.stream = none ∧ x.streamConnector = none ∧
        ∀ o, ¬ x.session.processor.core.owned o) := by
  obtain ⟨x₀, hcreate, hx₀, hclient⟩ := sound_create
  refine ⟨x₀, hcreate, fun cs x hd hrun => ?_⟩
  have hgoes := hx₀.run cs hd hrun
  have h := hgoes.sound
  have hstream : x.stream = none ↔ x.session.processor.core.reader = .stopped := by
    rw [← h.stream]
    constructor
    · intro hnone
      by_contra hr
      exact h.safe.started hr hnone
    · exact h.safe.stopped
  refine ⟨fun c hc => ?_, ?_, ?_, hstream, h.sleeping, fun hp => ?_⟩
  · obtain ⟨r, hr, -⟩ := h.call_spec hc
    exact ⟨r, hr⟩
  · rw [← hclient]
    exact hgoes.simulated
  · have hnew : x₀.openedStreams = [] := by
      obtain ⟨session, -, hcreate⟩ := bind_eq_ok hcreate
      cases hcreate
      rfl
    rw [← h.streams, hgoes.opened, hnew, List.append_nil]
  · have hm : x.main ≠ .processing := by simp [(h.phase hp).1]
    exact ⟨h.stream_none hm, h.streamConnector.2 hp, (h.safe.orderly.quiet (h.reader_stopped hm)).2.2.2⟩

/-- Somebody asks for a request stream before there is a connection, and gets it with the second try. -/
def connecting : List Call := [.start (some 1), .mainStart, .createRequestStream 0, .connected 5, .retry 2 0]

theorem runs_without_fault_connecting : ∃ x₀ x, create = .ok x₀ ∧ Run.Meets step Disciplined x₀ connecting ∧
    Run.exec step x₀ connecting = some x ∧ x.stream = some 5 ∧ x.session.processor.core.owned 0 ∧
    ∃ r, x.call .stop = .ok r := by
  obtain ⟨x₀, hcreate, hall⟩ := runs_without_fault
  have hmeets : Run.Meets step Disciplined x₀ connecting := by
    cases hcreate
    refine Run.meets_cons_of ⟨rfl, by decide⟩ rfl ?_
    refine Run.meets_cons_of trivial rfl ?_
    refine Run.meets_cons_of trivial rfl ?_
    refine Run.meets_cons_of trivial rfl ?_
    exact Run.meets_cons_of trivial rfl trivial
  cases hcreate
  obtain ⟨hok, -⟩ := hall connecting _ hmeets rfl
  exact ⟨_, _, rfl, hmeets, rfl, rfl, rfl, hok .stop ⟨rfl, trivial, fun _ _ _ => rfl⟩⟩

end MrpcClient
end Mrpc
