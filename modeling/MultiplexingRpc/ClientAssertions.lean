import MultiplexingRpc.AssertingClient
import MultiplexingRpc.ServerAssertions
/-!
# ClientAssertions — no peer makes a client assertion fail

The client's side of `ServerAssertions`: its assertions, those of the bitmap of request ids included, change nothing,
whatever the server sends and wherever the connection breaks, as long as callers flush once, after they wrote and as their
last write, and nobody waits for a request stream when the processor is told to stop.
-/
namespace Mrpc

/-! ## What callers promise -/

/-- A processor, and what its callers did so far. -/
structure ClientSession where
  processor : ClientProcessor
  usage : StreamNo → Usage

namespace ClientStreamProcessor

open ServerStreamProcessor (Idle Usages)

/-- What the callers have done after a step. -/
def usageAfter (usage : StreamNo → Usage) : Action → StreamNo → Usage
  | .event e => Mrpc.usageAfter usage (.event e)
  | .deleteRequestStream o => Function.update usage o .fresh
  | _ => usage

variable {c c' : ClientStreamProcessor} {u : StreamNo → Usage} {a : Action}

theorem Orderly.shared (h : c.Orderly) : ServerStreamProcessor.Sound c.core := ⟨h.sound.core, h.phased⟩

theorem Orderly.slot (h : c.Orderly) {o : StreamNo} (ho : ¬ c.core.owned o) :
    c.core.active (c.core.requestIds o) = none := by
  rw [h.sound.requestIds]
  exact h.sound.slot_of_not_owned ho

theorem Orderly.idle_step (h : c.Orderly) (hidle : Idle c.core u) (hs : c.step a = some c') :
    Idle c'.core (usageAfter u a) := by
  cases outcome_of_step hs with
  | event ht => exact hidle.turn h.shared ht
  | created hst ho => exact hidle.enter (h.slot ho) _
  | woken hw ho => exact hidle.enter (h.slot ho) _
  | delivered hr hslot => exact hidle.deliver (h.sound.core.owned_of_active hslot) _
  | deleted ho hf => exact hidle.releaseStream ho
  | _ => exact hidle

theorem Orderly.usages_step (h : c.Orderly) (hidle : Idle c.core u) (husages : Usages c.core u)
    (hs : c.step a = some c') : Usages c'.core (usageAfter u a) := by
  cases outcome_of_step hs with
  | event ht => exact ht.usage h.sound.core husages
  | created hst ho => exact husages.enter hidle ho
  | woken hw ho => exact husages.enter hidle ho
  | delivered hr hslot => exact husages.deliver _ _
  | deleted ho hf => exact husages.releaseStream hf
  | _ => exact husages

/-- **Between two connections no stream has an owner**, and the writer is gone. -/
theorem Orderly.quiet (h : c.Orderly) (hr : c.core.reader = .stopped) :
    c.core.state ≠ .working ∧ c.core.writer = .stopped ∧ c.core.activeCnt = 0 ∧ ∀ o, ¬ c.core.owned o := by
  have hp := h.phased.phaseOk
  rw [StreamProcessor.PhaseOk, hr] at hp
  obtain ⟨hst, hw, -, -, hcnt⟩ := hp
  refine ⟨hst, hw, hcnt, fun o ho => ?_⟩
  have := h.sound.core.activeCnt_pos ho
  omega

/-- **Only the end of the reader ends a connection.** -/
theorem Orderly.reader_of_stopped (h : c.Orderly) (hs : c.step a = some c') (hr : c'.core.reader = .stopped) :
    c.core.reader = .stopped ∨ a = .event .reader ∧ c.core.reader = .waitingWriter := by
  by_cases hbefore : c.core.reader = .stopped
  · exact Or.inl hbefore
  right
  cases outcome_of_step hs with
  | @event e core ht =>
    have hcore : ServerStreamProcessor.step c.core (.event e) = some core := by
      obtain ⟨core', hcore, heq⟩ := Option.map_eq_some_iff.1 hs
      cases heq
      exact hcore
    obtain ⟨-, hend⟩ := ServerStreamProcessor.reader_ne_stopped h.shared (fun hr => absurd hr hbefore) hcore (by simp)
    obtain ⟨he, hw, -⟩ := hend hr
    cases he
    exact ⟨rfl, hw⟩
  | delivered => cases hr
  | unexpected => cases hr
  | process => cases hr
  | deleted ho hf =>
    rw [StreamProcessor.releaseStream_eq] at hr
    exact absurd hr hbefore
  | _ => exact absurd hr hbefore

/-- **Only `process_stream` begins one.** -/
theorem Orderly.stopped_of_reader (h : c.Orderly) (hs : c.step a = some c') (ha : a ≠ .processStream)
    (hr : c.core.reader = .stopped) : c'.core.reader = .stopped := by
  obtain ⟨hst, hw, -, hown⟩ := h.quiet hr
  cases outcome_of_step hs with
  | @event e core ht =>
    cases howner : e.owner with
    | some o => exact absurd (ht.ownerFrame h.sound.core.fiberOk howner).1 (hown o)
    | none =>
      cases ht.system howner with
      | writerGet hw' | writerSkip hw' | writeOk hw' | writeFail hw' | flushOk hw' | flushFail hw' => exact hr
      | writerEnd => exact hr
      | readerWriterStopped => rfl
      | _ hr' => cases hr.symm.trans hr'
  | processNothing | process => exact absurd rfl ha
  | created hw => exact absurd hw hst
  | woken hpos ho => exact absurd (h.waiters hpos) hst
  | delivered hr' | unexpected hr' => cases hr.symm.trans hr'
  | deleted ho => exact absurd ho (hown _)
  | refused | waits | stopAsync => exact hr

end ClientStreamProcessor

namespace ClientProcessor

/-- The step of the model that a call is; none where it only checks. -/
def Call.action : Call → Option ClientStreamProcessor.Action
  | .event e => some (.event e)
  | .processStream _ => some .processStream
  | .createRequestStream o => some (.createRequestStream o)
  | .wake o => some (.wake o)
  | .receive f => some (.receive f)
  | .deleteRequestStream o => some (.deleteRequestStream o)
  | .stopAsync => some .stopAsync
  | .writerStart | .delete => none

/-- The connection after a call: set by `process_stream`, cleared at its end. -/
def streamAfter (s : ClientProcessor) (c : Call) (client : PooledClient) : Option Nat :=
  if client.client.core.reader = .stopped then none
  else match c with
    | .processStream stream => stream
    | _ => s.stream

/-- The fiber of the writer is there to start. -/
def Starts (s : ClientProcessor) (c : Call) : Prop := c = .writerStart ∧ s.core.writer = .getting

instance (s : ClientProcessor) (c : Call) : Decidable (s.Starts c) := inferInstanceAs (Decidable (_ ∧ _))

/-- The processor as modelled, with its connection. -/
def plain (s : ClientProcessor) (c : Call) : Option ClientProcessor :=
  match c.action with
  | some a => (s.client.step a).map fun client => ⟨client, s.streamAfter c client⟩
  | none => if s.Starts c then some s else none

end ClientProcessor

namespace ClientSession

/-- The session with its processor after a call. -/
def after (x : ClientSession) (c : ClientProcessor.Call) (processor : Option ClientProcessor) : Option ClientSession :=
  processor.map fun processor =>
    ⟨processor, c.action.elim x.usage (ClientStreamProcessor.usageAfter x.usage)⟩

/-- With assertions. -/
def checked (x : ClientSession) (c : ClientProcessor.Call) : Except Fault (Option ClientSession) := do
  let processor ← x.processor.call c
  .ok (x.after c processor)

/-- Without. -/
def unchecked (x : ClientSession) (c : ClientProcessor.Call) : Option ClientSession := x.after c (x.processor.plain c)

def create : Except Fault ClientSession := do
  let processor ← ClientProcessor.create
  .ok ⟨processor, fun _ => .fresh⟩

/-- What callers and the client keep to: a caller flushes at most once, after a write, and does not write after it; the
processor gets a connection to process; and nobody waits for a request stream when it leaves `STATE_WORKING`. -/
def Disciplined (x : ClientSession) (c : ClientProcessor.Call) : Prop :=
  (match c with
    | .event (.write o _) => x.usage o ≠ .flushed
    | .event (.flush o) => x.usage o = .wrote
    | .processStream stream => stream ≠ none
    | _ => True) ∧
  ∀ a, c.action = some a → ClientStreamProcessor.Unwaited x.processor.client.client a

variable {x x' : ClientSession} {c : ClientProcessor.Call}

/-- What holds after every run. -/
structure Safe (x : ClientSession) : Prop where
  pooled : x.processor.client.Pooled
  orderly : x.processor.client.client.Orderly
  idle : ServerStreamProcessor.Idle x.processor.core x.usage
  usages : ServerStreamProcessor.Usages x.processor.core x.usage
  stopped : x.processor.core.reader = .stopped → x.processor.stream = none
  started : x.processor.core.reader ≠ .stopped → x.processor.stream ≠ none

theorem safe_create : ∃ x, create = .ok x ∧ x.Safe := by
  obtain ⟨client, hcreate, hpooled, hclient⟩ := PooledClient.pooled_create
  refine ⟨⟨⟨client, none⟩, fun _ => .fresh⟩, ?_, hpooled, ?_, ?_, ?_, fun _ => rfl, ?_⟩
  · rw [create, ClientProcessor.create, hcreate, ok_bind, ok_bind]
  all_goals dsimp only [ClientProcessor.core]
  all_goals rw [hclient]
  · exact ClientStreamProcessor.orderly_create
  · exact fun _ _ => ⟨rfl, rfl, rfl, rfl⟩
  · exact fun _ => rfl
  · exact fun h => absurd rfl h

/-- **The connection is there exactly while the reader is.** -/
theorem Safe.stream (h : x.Safe) (hd : Disciplined x c) {a : ClientStreamProcessor.Action} {y : PooledClient}
    (ha : c.action = some a) (hy : x.processor.client.step a = some y) :
    (y.client.core.reader = .stopped → x.processor.streamAfter c y = none) ∧
    (y.client.core.reader ≠ .stopped → x.processor.streamAfter c y ≠ none) := by
  have hstep := (h.pooled.step_client hy).1
  refine ⟨fun hr => if_pos hr, fun hr => ?_⟩
  unfold ClientProcessor.streamAfter
  rw [if_neg hr]
  cases c with
  | processStream stream => exact hd.1
  | writerStart | delete => cases ha
  | _ =>
    cases ha
    exact h.started fun hbefore => hr (h.orderly.stopped_of_reader hstep (by simp) hbefore)

theorem Safe.step (h : x.Safe) (hd : Disciplined x c) (hstep : x.unchecked c = some x') : x'.Safe := by
  obtain ⟨processor, hplain, rfl⟩ := Option.map_eq_some_iff.1 hstep
  unfold ClientProcessor.plain at hplain
  cases ha : c.action with
  | none =>
    rw [ha] at hplain
    dsimp only at hplain
    split at hplain
    · cases hplain
      exact h
    · cases hplain
  | some a =>
    rw [ha] at hplain
    obtain ⟨y, hy, rfl⟩ := Option.map_eq_some_iff.1 hplain
    have hclient := (h.pooled.step_client hy).1
    obtain ⟨hstopped, hstarted⟩ := h.stream hd ha hy
    refine ⟨h.pooled.step hy, h.orderly.step (hd.2 a ha) hclient, ?_, ?_, hstopped, hstarted⟩
    · exact h.orderly.idle_step h.idle hclient
    · exact h.orderly.usages_step h.idle h.usages hclient

end ClientSession

/-! ## The assertions hold -/

namespace ClientProcessor

variable {s : ClientProcessor}

theorem stopAsync_eq (hstream : s.core.state = .working → s.stream ≠ none)
    (hquiet : s.core.state = .stopped → s.stream = none ∧ s.core.activeCnt = 0) :
    s.stopAsync = .ok (s.withCore { s.core with state := .stopInitiated }) := by
  unfold stopAsync
  cases hst : s.core.state with
  | working => rw [if_pos rfl, ffAssert_of (hstream hst), ok_bind]
  | stopped =>
    obtain ⟨hnone, hcnt⟩ := hquiet hst
    rw [if_neg (by decide), if_pos rfl, ffAssert_of hnone, ok_bind, ffAssert_of hcnt, ok_bind]
  | stopInitiated =>
    rw [if_neg (by decide), if_neg (by decide), ffAssert_of rfl, ok_bind, ← hst]
    rfl

theorem stopAsync_running (hst : s.core.state ≠ .stopped) (hstream : s.stream ≠ none) :
    s.stopAsync = .ok (s.withCore s.core.stopAsync) := by
  rw [stopAsync_eq (fun _ => hstream) (fun h => absurd h hst), StreamProcessor.stopAsync_eq hst]

/-- Both fibers check that they told the processor to stop. -/
theorem state_stopAsync (hst : s.core.state ≠ .stopped) : (s.withCore s.core.stopAsync).core.state = .stopInitiated := by
  show s.core.stopAsync.state = _
  rw [StreamProcessor.stopAsync_eq hst]

theorem abandon_eq (hst : s.core.state ≠ .stopped) (hstream : s.stream ≠ none) (p : Packet) :
    s.abandon p = .ok (s.withCore (s.core.abandon p)) := by
  have hcore : (s.withCore (s.core.releasePacket p)).core.state ≠ .stopped := hst
  rw [abandon, Asserting.releasePacket_eq hst, ok_bind, stopAsync_running hcore hstream, ok_bind,
    ffAssert_of (state_stopAsync hcore), ok_bind]
  rfl

theorem skip_eq (hst : s.core.state ≠ .stopped) (hstream : s.stream ≠ none) :
    s.skip = .ok (s.withCore { s.core.stopAsync with writer := .skipping }) := by
  rw [skip, stopAsync_running hst hstream, ok_bind, ffAssert_of (state_stopAsync hst), ok_bind]
  rfl

/-- **A shared turn of a server's is one of the client's.** -/
theorem sharing_eq {r : Except Fault (Option ServerProcessor)} {t : ServerProcessor} {core : Option StreamProcessor}
    (h : r = .ok (t.onCore core)) : s.sharing r = .ok (s.onCore core) := by
  rw [h, sharing, ok_bind]
  cases core <;> rfl

/-- **Between two connections nothing happens.** -/
theorem event_quiet (hr : s.core.reader = .stopped) (hw : s.core.writer = .stopped) (ho : ∀ o, ¬ s.core.owned o)
    (e : StreamProcessor.Event) : s.event e = .ok none ∧ s.core.event e = none := by
  have hnot : ∀ o (q : Prop), ¬ (s.core.owned o ∧ q) := fun o q h => ho o h.1
  have hsharing : ∀ {r : Except Fault (Option StreamProcessor)}, r = .ok none →
      s.sharing (r.bind fun core => .ok (s.shared.onCore core)) = .ok none := fun h => by
    rw [h]
    rfl
  cases e with
  | read o len => exact ⟨hsharing (if_neg (hnot o _)), if_neg (hnot o _)⟩
  | get o =>
    cases hf : s.core.fibers o with
    | reading len buf =>
      refine ⟨hsharing ?_, ?_⟩
      · simp only [Asserting.get, shared, hf]
        exact if_neg (ho o)
      · simp only [StreamProcessor.event, StreamProcessor.get, hf, if_neg (ho o)]
    | _ =>
      refine ⟨hsharing ?_, ?_⟩
      · simp only [Asserting.get, shared, hf]
      · simp only [StreamProcessor.event, StreamProcessor.get, hf]
  | timeout o =>
    have hcore : s.core.timeout o = none := by
      unfold StreamProcessor.timeout
      split
      · exact if_neg (hnot o _)
      · rfl
    exact ⟨hsharing (r := .ok (s.core.timeout o)) (by rw [hcore]), hcore⟩
  | write o buf => exact ⟨hsharing (if_neg (hnot o _)), if_neg (hnot o _)⟩
  | flush o => exact ⟨hsharing (if_neg (hnot o _)), if_neg (hnot o _)⟩
  | acquire o =>
    cases hf : s.core.fibers o with
    | acquiring type rest =>
      refine ⟨hsharing ?_, ?_⟩
      · simp only [Asserting.acquire, shared, hf]
        exact if_neg (hnot o _)
      · simp only [StreamProcessor.event, StreamProcessor.acquire, hf, if_neg (hnot o _)]
    | _ =>
      refine ⟨hsharing ?_, ?_⟩
      · simp only [Asserting.acquire, shared, hf]
      · simp only [StreamProcessor.event, StreamProcessor.acquire, hf]
  | reader =>
    simp only [event, readerStep, StreamProcessor.event, StreamProcessor.readerStep, ServerProcessor.readerStep, shared, hr,
      and_true]
    rfl
  | readerFail => simp only [event, readerFail, StreamProcessor.event, StreamProcessor.readerFail, hr, and_self]
  | writer =>
    refine ⟨hsharing ?_, ?_⟩
    · simp only [ServerProcessor.writerStep, shared, hw]
    · simp only [StreamProcessor.event, StreamProcessor.writerStep, hw]
  | writerResult result =>
    simp only [event, writerResult, StreamProcessor.event, StreamProcessor.writerResult, hw, and_self]

end ClientProcessor

namespace Asserting

theorem deletePackets_eq : ∀ {ps : List Packet}, (∀ p ∈ ps, p.Blank) → ps.forM deletePacket = .ok ()
  | [], _ => rfl
  | p :: ps, h => by
    rw [List.forM, deletePacket_eq (h p List.mem_cons_self), ok_bind]
    exact deletePackets_eq fun q hq => h q (List.mem_cons_of_mem _ hq)

end Asserting

namespace ClientSession

variable {x x' : ClientSession} {c : ClientProcessor.Call}

namespace Safe

theorem ready (h : x.Safe) : Asserting.Ready x.processor.core :=
  ⟨h.pooled.tabled.neat, fun _ ho => h.orderly.phased.state_ne_stopped (h.orderly.sound.core.activeCnt_pos ho)⟩

/-- **During a connection the processor is like a server's.** -/
theorem session (h : x.Safe) (hr : x.processor.core.reader ≠ .stopped) : Session.Safe ⟨x.processor.shared, x.usage⟩ :=
  ⟨h.orderly.shared, h.pooled.tabled.neat, h.idle, h.usages, fun hstopped => absurd hstopped hr,
    fun _ => ⟨h.started hr, h.started hr⟩⟩

theorem state_of_reader (h : x.Safe) (hr : x.processor.core.reader ≠ .stopped) : x.processor.core.state ≠ .stopped :=
  fun hst => hr (h.orderly.phased.quiet hst).1

theorem reader_of_writer (h : x.Safe) (hw : x.processor.core.writer ≠ .stopped) : x.processor.core.reader ≠ .stopped :=
  fun hr => hw (h.orderly.quiet hr).2.1

theorem reader_of_working (h : x.Safe) (hst : x.processor.core.state = .working) :
    x.processor.core.reader ≠ .stopped :=
  fun hr => (h.orderly.quiet hr).1 hst

theorem plain_eq (h : x.Safe) {a : ClientStreamProcessor.Action} (ha : c.action = some a) (hne : a ≠ .processStream)
    (hr : a = .event .reader → x.processor.core.reader ≠ .waitingWriter) :
    x.processor.plain c = (x.processor.client.step a).map fun client => { x.processor with client := client } := by
  unfold ClientProcessor.plain
  rw [ha]
  dsimp only
  cases hy : x.processor.client.step a with
  | none => rfl
  | some y =>
    have hstream : x.processor.streamAfter c y = x.processor.stream := by
      unfold ClientProcessor.streamAfter
      split
      · rename_i hstopped
        rcases h.orderly.reader_of_stopped (h.pooled.step_client hy).1 hstopped with hbefore | ⟨he, hw⟩
        · exact (h.stopped hbefore).symm
        · exact absurd hw (hr he)
      · cases c with
        | processStream => exact absurd (Option.some.inj ha).symm hne
        | _ => rfl
    rw [Option.map_some, Option.map_some, hstream]

theorem readerFail_eq (h : x.Safe) :
    x.processor.readerFail = .ok (x.processor.onCore x.processor.core.readerFail) := by
  unfold ClientProcessor.readerFail StreamProcessor.readerFail
  cases hr : x.processor.core.reader with
  | reading p =>
    have hne : x.processor.core.reader ≠ .stopped := by simp [hr]
    dsimp only
    rw [ClientProcessor.abandon_eq (h.state_of_reader hne) (h.started hne), ok_bind]
    rfl
  | _ => rfl

theorem writerResult_eq (h : x.Safe) (result : FfResult) :
    x.processor.writerResult result = .ok (x.processor.onCore (x.processor.core.writerResult result)) := by
  unfold ClientProcessor.writerResult StreamProcessor.writerResult
  cases hw : x.processor.core.writer with
  | stopped | getting | skipping => cases result <;> rfl
  | writing p =>
    have hne := h.reader_of_writer (by simp [hw])
    have hst := h.state_of_reader hne
    cases result with
    | success =>
      dsimp only
      rw [Asserting.releasePacket_eq hst, ok_bind]
      rfl
    | failure =>
      have hcore : (x.processor.withCore (x.processor.core.releasePacket p)).core.state ≠ .stopped := hst
      dsimp only
      rw [Asserting.releasePacket_eq hst, ok_bind, ClientProcessor.skip_eq hcore (h.started hne), ok_bind]
      rfl
  | flushing =>
    have hne := h.reader_of_writer (by simp [hw])
    cases result with
    | success => rfl
    | failure =>
      dsimp only
      rw [ClientProcessor.skip_eq (h.state_of_reader hne) (h.started hne), ok_bind]
      rfl

theorem event_eq (h : x.Safe) {e : StreamProcessor.Event} (hd : Disciplined x (.event e))
    (hr : e = .reader → x.processor.core.reader ≠ .waitingWriter) :
    x.processor.event e = .ok (x.processor.onCore (x.processor.core.event e)) := by
  by_cases hne : x.processor.core.reader = .stopped
  · obtain ⟨-, hw, -, ho⟩ := h.orderly.quiet hne
    obtain ⟨hevent, hcore⟩ := ClientProcessor.event_quiet hne hw ho e
    rw [hevent, hcore]
    rfl
  have hsession := h.session hne
  have hdisciplined : Session.Disciplined ⟨x.processor.shared, x.usage⟩ (.event e) := by
    cases e with
    | write o buf => exact hd.1
    | flush o => exact hd.1
    | _ => trivial
  cases e with
  | readerFail => exact h.readerFail_eq
  | writerResult result => exact h.writerResult_eq result
  | reader =>
    have heq : x.processor.readerStep = x.processor.sharing x.processor.shared.readerStep := by
      unfold ClientProcessor.readerStep
      split
      · rename_i hw
        exact absurd hw (hr rfl)
      · rfl
    exact heq.trans (ClientProcessor.sharing_eq (hsession.readerStep_eq (hr rfl)))
  | _ => exact ClientProcessor.sharing_eq (hsession.event_eq hdisciplined (by simp))

/-- The reader's last turn ends the connection. -/
theorem lastTurn_eq (h : x.Safe) (hw : x.processor.core.reader = .waitingWriter) :
    x.processor.event .reader = .ok (x.processor.plain (.event .reader)) := by
  have hcore : x.processor.client.client.core = x.processor.core := rfl
  simp only [ClientProcessor.event, ClientProcessor.readerStep, ClientProcessor.plain, ClientProcessor.Call.action,
    PooledClient.step, ClientStreamProcessor.step, StreamProcessor.event, StreamProcessor.readerStep, hcore, hw]
  split <;> rfl

theorem receive_eq (h : x.Safe) (f : Frame) : x.processor.receive f = .ok ((x.processor.client.step (.receive f)).map
    fun client => { x.processor with client := client }) := by
  have hcore : x.processor.client.client.core = x.processor.core := rfl
  simp only [ClientProcessor.receive, PooledClient.step, ClientStreamProcessor.step, ClientStreamProcessor.receive, hcore]
  cases hr : x.processor.core.reader with
  | reading p =>
    have hne : x.processor.core.reader ≠ .stopped := by simp [hr]
    have hst := h.state_of_reader hne
    dsimp only
    split
    · cases x.processor.core.active f.requestId with
      | some o =>
        dsimp only
        rw [ServerProcessor.deliver_eq hst, ok_bind]
        rfl
      | none =>
        dsimp only
        rw [ClientProcessor.abandon_eq hst (h.started hne), ok_bind]
        rfl
    · rfl
  | _ => rfl

theorem deleteRequestStream_eq (h : x.Safe) (o : StreamNo) :
    x.processor.deleteRequestStream o = .ok ((x.processor.client.step (.deleteRequestStream o)).map
      fun client => { x.processor with client := client }) := by
  have hcore : x.processor.client.client.core = x.processor.core := rfl
  simp only [ClientProcessor.deleteRequestStream, PooledClient.step, ClientStreamProcessor.step,
    ClientStreamProcessor.deleteRequestStream, hcore]
  split
  · rename_i hg
    have hpos := h.orderly.sound.core.activeCnt_pos hg.1
    have hle := h.orderly.sound.core.activeCnt_le
    have hrelease : Asserting.releaseStream x.processor.core o = .ok (x.processor.core.releaseStream o) :=
      Asserting.releaseStream_eq h.pooled.tabled.neat (h.ready.state o hg.1) hpos hle hg.1
    rw [hrelease, ok_bind]
    rfl
  · rfl

/-! ## Request streams -/

theorem acquireEntry_eq (h : x.Safe) (hst : x.processor.core.state ≠ .stopped) (o : StreamNo) :
    x.processor.acquireEntry o = .ok (x.processor.client.acquireEntry o) := by
  unfold ClientProcessor.acquireEntry PooledClient.acquireEntry
  split
  · rfl
  · split
    · rename_i ho
      have hlt : x.processor.client.created < maxRequestStreamsCnt := ho ▸ o.isLt
      obtain ⟨bitmap, hacquire, -⟩ := h.pooled.numbered.acquireRequestId_spec hlt
      rw [ffAssert_of hst, ok_bind, ffAssert_of (by decide), ok_bind, ok_bind, hacquire, ok_bind]
    · rfl

/-- **A request stream that the pool hands out finds its slot empty**, and is as it was made. -/
theorem acquireRequestStream_eq (h : x.Safe) (hst : x.processor.core.state ≠ .stopped) {o : StreamNo}
    (ho : ¬ x.processor.core.owned o) :
    x.processor.acquireRequestStream o = .ok (x.processor.client.acquireRequestStream o) := by
  unfold ClientProcessor.acquireRequestStream PooledClient.acquireRequestStream
  rw [h.acquireEntry_eq hst, ok_bind]
  cases ha : x.processor.client.acquireEntry o with
  | none => rfl
  | some acquired =>
    obtain ⟨requestId, y⟩ := acquired
    obtain ⟨rfl, hclient, -⟩ := h.pooled.acquireEntry_spec ha
    have hslot : x.processor.client.client.core.active requestId = none := h.orderly.sound.slot_of_not_owned ho
    have hcnt := (h.orderly.sound.core.exists_not_owned hslot).1
    obtain ⟨hread, hwrite, hid, -⟩ := h.idle requestId ho
    have hinit : Asserting.initialise (x.processor.client.client.core.streams requestId) requestId = .ok _ :=
      Asserting.initialise_eq hread hwrite hid requestId
    dsimp only
    rw [hclient, ffAssert_of hslot, ok_bind, hinit, ok_bind, ffAssert_of hcnt, ok_bind, Option.map_some]
    dsimp only
    rw [hclient]

theorem createRequestStream_eq (h : x.Safe) (o : StreamNo) :
    x.processor.createRequestStream o = .ok ((x.processor.client.step (.createRequestStream o)).map
      fun client => { x.processor with client := client }) := by
  have hcore : x.processor.client.client.core = x.processor.core := rfl
  have hle : x.processor.core.activeCnt ≤ maxRequestStreamsCnt := h.orderly.sound.core.activeCnt_le
  simp only [ClientProcessor.createRequestStream, PooledClient.step, ClientStreamProcessor.createRequestStream, hcore]
  by_cases hw : x.processor.core.state = .working
  · have hst : x.processor.core.state ≠ .stopped := by simp [hw]
    rw [if_pos hw, if_pos hw, ffAssert_of hw, ok_bind, ffAssert_of hle, ok_bind, ffAssert_of hst, ok_bind]
    by_cases ho : x.processor.core.owned o
    · have hg : ¬ (x.processor.core.state = .working ∧ ¬ x.processor.core.owned o) := fun hg => hg.2 ho
      rw [if_pos ho, if_neg hg, if_pos ho]
      by_cases hall : ∀ o, x.processor.core.owned o
      · rw [if_pos hall, if_pos hall]
        rfl
      · rw [if_neg hall, if_neg hall]
        rfl
    · rw [if_neg ho, if_pos ⟨hw, ho⟩, h.acquireRequestStream_eq hst ho, ok_bind]
  · rw [if_neg hw, if_neg (fun hg => hw hg.1), if_neg hw]
    rfl

theorem wake_eq (h : x.Safe) (o : StreamNo) : x.processor.wake o = .ok ((x.processor.client.step (.wake o)).map
    fun client => { x.processor with client := client }) := by
  have hcore : x.processor.client.client.core = x.processor.core := rfl
  simp only [ClientProcessor.wake, PooledClient.step, hcore]
  split
  · rename_i hg
    have hst : x.processor.core.state ≠ .stopped := by
      have hw : x.processor.core.state = .working := h.orderly.waiters hg.1
      simp [hw]
    rw [h.acquireRequestStream_eq hst hg.2, ok_bind]
    cases x.processor.client.acquireRequestStream o <;> rfl
  · rfl

/-! ## Deletion -/

/-- **The pool gives back the ids it took**, one stream after another. -/
theorem deletePooled_eq {core : StreamProcessor} (hids : ∀ o, core.requestIds o = o)
    (hidle : ∀ o, (core.streams o).currentReadPacket = none ∧ (core.streams o).currentWritePacket = none ∧
      (core.streams o).requestId = 0) :
    ∀ (ns : List Nat) (bitmap : Bitmap), bitmap.WellFormed → ns.Nodup → (∀ n ∈ ns, n < 256 ∧ bitmap.Holds n) →
      ∃ bitmap', ns.foldlM (ClientProcessor.deletePooled core) bitmap = .ok bitmap'
  | [], bitmap, _, _, _ => ⟨bitmap, rfl⟩
  | n :: ns, bitmap, hwf, hnodup, hns => by
    obtain ⟨hlt, hholds⟩ := hns n List.mem_cons_self
    have hn : (core.requestIds (Fin.ofNat 256 n)).val = n := by
      rw [hids]
      exact Nat.mod_eq_of_lt hlt
    obtain ⟨bitmap₁, hrelease, hwf₁, -, -, hholds₁⟩ := hwf.releaseBit_spec hholds
    obtain ⟨hr, hw, hid⟩ := hidle (Fin.ofNat 256 n)
    obtain ⟨hnotMem, hrest⟩ := List.nodup_cons.1 hnodup
    obtain ⟨bitmap', hfold⟩ := deletePooled_eq hids hidle ns bitmap₁ hwf₁ hrest fun m hm =>
      ⟨(hns m (List.mem_cons_of_mem _ hm)).1,
        (hholds₁ m).2 ⟨fun h => hnotMem (h ▸ hm), (hns m (List.mem_cons_of_mem _ hm)).2⟩⟩
    refine ⟨bitmap', ?_⟩
    rw [List.foldlM_cons, ClientProcessor.deletePooled, hn, hrelease, ok_bind, Asserting.initialise_eq hr hw hid, ok_bind,
      ok_bind]
    exact hfold

theorem delete_eq (h : x.Safe) : x.processor.delete = .ok none := by
  unfold ClientProcessor.delete
  split
  · rename_i hr
    obtain ⟨hst, -, hcnt, ho⟩ := h.orderly.quiet hr
    have hcore : x.processor.client.client.core = x.processor.core := rfl
    rw [hcore] at hst hcnt
    have hpackets : x.processor.core.packetsPool.free.forM Asserting.deletePacket = .ok () :=
      Asserting.deletePackets_eq h.pooled.tabled.neat.free
    obtain ⟨bitmap, hfold⟩ := deletePooled_eq h.orderly.sound.requestIds
      (fun o => ⟨(h.idle o (ho o)).1, (h.idle o (ho o)).2.1, (h.idle o (ho o)).2.2.1⟩)
      (List.range x.processor.client.created) x.processor.client.requestStreamsBitmap h.pooled.numbered.wellFormed
      List.nodup_range fun n hn => ⟨lt_of_lt_of_le (List.mem_range.1 hn) h.pooled.numbered.created,
        (h.pooled.numbered.holds n).2 (List.mem_range.1 hn)⟩
    rw [ffAssert_of (h.stopped hr), ok_bind, ffAssert_of hcnt, ok_bind, ffAssert_of hst, ok_bind, hpackets, ok_bind,
      ← hcore, hfold, ok_bind]
  · rfl

/-! ## All calls -/

/-- **With or without assertions, a processor does the same.** -/
theorem call_eq (h : x.Safe) (hd : Disciplined x c) : x.processor.call c = .ok (x.processor.plain c) := by
  have hcore : x.processor.client.client.core = x.processor.core := rfl
  cases c with
  | event e =>
    by_cases hr : e = .reader ∧ x.processor.core.reader = .waitingWriter
    · obtain ⟨rfl, hw⟩ := hr
      exact h.lastTurn_eq hw
    · have hne : ClientStreamProcessor.Action.event e = .event .reader → x.processor.core.reader ≠ .waitingWriter :=
        fun he hw => hr ⟨by injection he, hw⟩
      rw [h.plain_eq rfl (by simp) hne, ClientProcessor.call, h.event_eq hd (fun he => hne (by rw [he]))]
      simp only [PooledClient.step, ClientStreamProcessor.step, hcore]
      cases x.processor.core.event e <;> rfl
  | processStream stream =>
    simp only [ClientProcessor.call, ClientProcessor.processStream, ClientProcessor.plain, ClientProcessor.Call.action,
      PooledClient.step, ClientStreamProcessor.step, ClientStreamProcessor.processStream, hcore]
    by_cases hr : x.processor.core.reader = .stopped
    · obtain ⟨hst, -, hcnt, -⟩ := h.orderly.quiet hr
      rw [hcore] at hst hcnt
      rw [if_pos hr, ffAssert_of (h.stopped hr), ok_bind, ffAssert_of hcnt, ok_bind, ffAssert_of hst, ok_bind, hr]
      cases hstate : x.processor.core.state with
      | working => exact absurd hstate hst
      | stopInitiated =>
        rw [if_pos rfl]
        dsimp only [Option.map_some, ClientProcessor.withCore]
        rw [h.stopped hr]
        rfl
      | stopped =>
        rw [if_neg (by decide), ffAssert_of rfl, ok_bind]
        rfl
    · rw [if_neg hr]
      split
      · rename_i hr' _
        exact absurd hr' hr
      · rename_i hr' _
        exact absurd hr' hr
      · rfl
  | writerStart =>
    simp only [ClientProcessor.call, ClientProcessor.writerStart, ClientProcessor.plain, ClientProcessor.Call.action]
    by_cases hw : x.processor.core.writer = .getting
    · have hr := h.reader_of_writer (by simp [hw])
      rw [if_pos hw, if_pos (show x.processor.Starts .writerStart from ⟨rfl, hw⟩), ffAssert_of (h.started hr), ok_bind,
        ffAssert_of (h.state_of_reader hr), ok_bind]
    · rw [if_neg hw, if_neg (show ¬ x.processor.Starts .writerStart from fun hg => hw hg.2)]
  | createRequestStream o =>
    rw [h.plain_eq rfl (by simp) (by simp)]
    exact h.createRequestStream_eq o
  | wake o =>
    rw [h.plain_eq rfl (by simp) (by simp)]
    exact h.wake_eq o
  | receive f =>
    rw [h.plain_eq rfl (by simp) (by simp)]
    exact h.receive_eq f
  | deleteRequestStream o =>
    rw [h.plain_eq rfl (by simp) (by simp)]
    exact h.deleteRequestStream_eq o
  | stopAsync =>
    have hstop : x.processor.stopAsync = .ok (x.processor.withCore { x.processor.core with state := .stopInitiated }) :=
      ClientProcessor.stopAsync_eq (fun hw => h.started (h.reader_of_working hw)) fun hst =>
        ⟨h.stopped (h.orderly.phased.quiet hst).1, (h.orderly.quiet (h.orderly.phased.quiet hst).1).2.2.1⟩
    rw [h.plain_eq rfl (by simp) (by simp), ClientProcessor.call, hstop]
    rfl
  | delete => exact h.delete_eq

end Safe

/-- **No assertion of the client fails**, nor one of the bitmap of its request ids, whatever the server sends, wherever the
connection breaks and in whatever order the fibers run: with assertions the processor does what it does without.  The
terminating `NULL` is the last in the writer queue, and the connection is there exactly while the reader is. -/
theorem never_faults : ∃ x₀, create = .ok x₀ ∧ ∀ (cs : List ClientProcessor.Call) (x : ClientSession),
    Run.Meets unchecked Disciplined x₀ cs → Run.exec unchecked x₀ cs = some x →
      (∀ c, Disciplined x c → x.checked c = .ok (x.unchecked c)) ∧
      (none ∈ x.processor.core.writerQueue → ∃ q : List Packet, x.processor.core.writerQueue = q.map some ++ [none]) ∧
      (x.processor.stream = none ↔ x.processor.core.reader = .stopped) ∧
      (x.processor.stream = none → x.processor.core.activeCnt = 0) := by
  obtain ⟨x₀, hcreate, hx₀⟩ := safe_create
  refine ⟨x₀, hcreate, fun cs x hd hrun => ?_⟩
  have h : x.Safe := Run.invariant (fun _ _ _ hs hC hstep => hs.step hC hstep) cs hx₀ hd hrun
  have hstream : x.processor.stream = none ↔ x.processor.core.reader = .stopped := by
    constructor
    · intro hnone
      by_contra hr
      exact h.started hr hnone
    · exact h.stopped
  refine ⟨fun c hc => ?_, fun hnone => ?_, hstream, fun hnone => ?_⟩
  · rw [checked, h.call_eq hc, ok_bind]
    rfl
  · exact (h.orderly.phased.draining hnone).2.2
  · exact (h.orderly.quiet (hstream.1 hnone)).2.2.1

/-- A caller writes a request of one byte. -/
def requesting : List ClientProcessor.Call :=
  [.processStream (some 1), .writerStart, .event .reader, .createRequestStream 0, .event (.write 0 [7])]

theorem never_faults_requesting : ∃ x₀ x, create = .ok x₀ ∧ Run.Meets unchecked Disciplined x₀ requesting ∧
    Run.exec unchecked x₀ requesting = some x ∧ x.checked (.event (.flush 0)) = .ok (x.unchecked (.event (.flush 0))) := by
  obtain ⟨x₀, hcreate, hall⟩ := never_faults
  have hmeets : Run.Meets unchecked Disciplined x₀ requesting := by
    cases hcreate
    refine Run.meets_cons_of ⟨by simp, fun _ _ _ => rfl⟩ rfl ?_
    refine Run.meets_cons_of ⟨trivial, fun _ _ _ => rfl⟩ rfl ?_
    refine Run.meets_cons_of ⟨trivial, fun _ _ _ => rfl⟩ rfl ?_
    refine Run.meets_cons_of ⟨trivial, fun _ _ _ => rfl⟩ rfl ?_
    exact Run.meets_cons_of ⟨show Usage.fresh ≠ .flushed by decide, fun _ _ _ => rfl⟩ rfl trivial
  cases hcreate
  have hflush := (hall requesting _ hmeets rfl).1 (.event (.flush 0)) ⟨rfl, fun _ _ _ => rfl⟩
  exact ⟨_, _, rfl, hmeets, rfl, hflush⟩

end ClientSession
end Mrpc
