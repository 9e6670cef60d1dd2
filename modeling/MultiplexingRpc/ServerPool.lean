import MultiplexingRpc.Server
import MultiplexingRpc.ServerAssertions
/-!
# ServerPool — the server with its pool, its ids and its assertions (`mrpc_server.c`)

`Server` leaves open which idle stream processor serves a client, and where its id comes from.  Here is what
`mrpc_server.c` does: a pool makes the stream processors one by one, each takes a bit of a bitmap as its id for good, and
the table of active ones is indexed by it.  Every `ff_assert` is where the source has it, those of the stream processors
included.  The server does what `Server` does, and none of the assertions fails.
-/
namespace Mrpc

/-- `struct mrpc_server`.  A stream processor is named by when the pool made it; `main` and `clientStream` are where
`main_server_func` stands and the stream it has in hand, `phase` is where the caller of the server stands. -/
structure MrpcServer where
  stopEvent : Bool
  streamProcessorsStopEvent : Bool
  streamProcessorsBitmap : Bitmap
  streamProcessorsPool : Pool Nat
  activeStreamProcessors : Nat → Option Nat
  streamHandler : Option Nat
  serviceCtx : Option Nat
  streamAcceptor : Option Nat
  maxStreamProcessorsCnt : Nat
  activeStreamProcessorsCnt : Nat
  processors : Nat → Session
  ids : Nat → Nat
  main : MainServer
  clientStream : Option Nat
  phase : RunPhase

namespace MrpcServer

/-- A server that was just made, with the bitmap for its ids. -/
def initial (maxStreamProcessorsCnt : Nat) (bitmap : Bitmap) : MrpcServer where
  stopEvent := false
  streamProcessorsStopEvent := false
  streamProcessorsBitmap := bitmap
  streamProcessorsPool := Pool.empty maxStreamProcessorsCnt
  activeStreamProcessors := fun _ => none
  streamHandler := none
  serviceCtx := none
  streamAcceptor := none
  maxStreamProcessorsCnt := maxStreamProcessorsCnt
  activeStreamProcessorsCnt := 0
  processors := fun _ => Session.create
  ids := fun _ => 0
  main := .stopped
  clientStream := none
  phase := .stopped

/-- `mrpc_server_create`. -/
def create (maxStreamProcessorsCnt : Nat) : Except Fault MrpcServer := do
  ffAssert (0 < maxStreamProcessorsCnt)
  let bitmap ← Bitmap.create maxStreamProcessorsCnt
  .ok (initial maxStreamProcessorsCnt bitmap)

/-! ## Stream processors -/

/-- `acquire_stream_processor_id`. -/
def acquireStreamProcessorId (x : MrpcServer) : Except Fault (Nat × MrpcServer) := do
  let (streamProcessorId, bitmap) ← x.streamProcessorsBitmap.acquireBit
  ffAssert (0 ≤ streamProcessorId)
  ffAssert (streamProcessorId < x.maxStreamProcessorsCnt)
  .ok (streamProcessorId.toNat, { x with streamProcessorsBitmap := bitmap })

/-- `release_stream_processor_id`. -/
def releaseStreamProcessorId (x : MrpcServer) (streamProcessorId : Nat) : Except Fault MrpcServer := do
  ffAssert (streamProcessorId < x.maxStreamProcessorsCnt)
  let bitmap ← x.streamProcessorsBitmap.releaseBit streamProcessorId
  .ok { x with streamProcessorsBitmap := bitmap }

/-- `create_stream_processor`. -/
def createStreamProcessor (x : MrpcServer) (p : Nat) : Except Fault MrpcServer := do
  let (streamProcessorId, x) ← x.acquireStreamProcessorId
  .ok { x with
    processors := Function.update x.processors p Session.create
    ids := Function.update x.ids p streamProcessorId }

/-- A function of a stream processor is called, or one of its fibers takes a step. -/
def callProcessor (x : MrpcServer) (p : Nat) (c : Mrpc.Call) : Except Fault (Option MrpcServer) := do
  let session ← (x.processors p).checked c
  .ok (session.map fun session => { x with processors := Function.update x.processors p session })

/-- `delete_stream_processor`, which gives the id back. -/
def deleteStreamProcessor (x : MrpcServer) (p : Nat) : Except Fault MrpcServer := do
  let _ ← x.callProcessor p .delete
  x.releaseStreamProcessorId (x.ids p)

/-- `ff_pool_acquire_entry`: an idle stream processor, or a new one as long as the pool may make one. -/
def acquireEntry (x : MrpcServer) : Except Fault (Option (Nat × MrpcServer)) :=
  match x.streamProcessorsPool.acquire id with
  | none => .ok none
  | some (p, pool) =>
    if x.streamProcessorsPool.free = [] then do
      let x ← x.createStreamProcessor p
      .ok (some (p, { x with streamProcessorsPool := pool }))
    else .ok (some (p, { x with streamProcessorsPool := pool }))

/-- `acquire_stream_processor`; none where it has to wait. -/
def acquireStreamProcessor (x : MrpcServer) : Except Fault (Option (Nat × MrpcServer)) := do
  ffAssert (x.activeStreamProcessorsCnt ≤ x.maxStreamProcessorsCnt)
  let acquired ← x.acquireEntry
  match acquired with
  | none => .ok none
  | some (p, x) => do
    ffAssert (x.activeStreamProcessors (x.ids p) = none)
    ffAssert (x.activeStreamProcessorsCnt + 1 ≤ x.maxStreamProcessorsCnt)
    .ok (some (p, { x with
      activeStreamProcessors := Function.update x.activeStreamProcessors (x.ids p) (some p)
      activeStreamProcessorsCnt := x.activeStreamProcessorsCnt + 1
      streamProcessorsStopEvent :=
        if x.activeStreamProcessorsCnt + 1 = 1 then false else x.streamProcessorsStopEvent }))

/-- `release_stream_processor`. -/
def releaseStreamProcessor (x : MrpcServer) (p : Nat) : Except Fault MrpcServer := do
  ffAssert (0 < x.activeStreamProcessorsCnt)
  ffAssert (x.activeStreamProcessorsCnt ≤ x.maxStreamProcessorsCnt)
  ffAssert (x.activeStreamProcessors (x.ids p) = some p)
  .ok { x with
    activeStreamProcessors := Function.update x.activeStreamProcessors (x.ids p) none
    streamProcessorsPool := x.streamProcessorsPool.release p
    activeStreamProcessorsCnt := x.activeStreamProcessorsCnt - 1
    streamProcessorsStopEvent := if x.activeStreamProcessorsCnt - 1 = 0 then true else x.streamProcessorsStopEvent }

/-- The body of the loop of `stop_all_stream_processors`. -/
def stopStreamProcessor (x : MrpcServer) (i : Nat) : Except Fault MrpcServer :=
  match x.activeStreamProcessors i with
  | none => .ok x
  | some p => do
    let stopped ← x.callProcessor p .stopAsync
    .ok (stopped.getD x)

/-- `stop_all_stream_processors` up to its wait. -/
def stopAllStreamProcessors (x : MrpcServer) : Except Fault MrpcServer := do
  ffAssert (0 < x.maxStreamProcessorsCnt)
  (List.range x.maxStreamProcessorsCnt).foldlM stopStreamProcessor x

/-! ## The server -/

/-- The loop of `main_server_func` with a client's stream in hand: it waits for a stream processor, or starts one. -/
def serve (x : MrpcServer) (stream : Nat) : Except Fault MrpcServer := do
  let acquired ← x.acquireStreamProcessor
  match acquired with
  | none => .ok { x with main := .acquiring, clientStream := some stream }
  | some (p, x) => do
    let started ← x.callProcessor p (.start x.streamHandler x.serviceCtx (some stream))
    match started with
    | none => .error .blocked
    | some x => .ok { x with main := .accepting, clientStream := none }

/-- `main_server_func` up to its loop. -/
def mainStart (x : MrpcServer) : Except Fault MrpcServer := do
  ffAssert (x.activeStreamProcessorsCnt = 0)
  ffAssert (x.streamHandler ≠ none)
  ffAssert (x.streamAcceptor ≠ none)
  .ok { x with streamProcessorsStopEvent := true, main := .accepting }

/-- `mrpc_server_start`. -/
def start (x : MrpcServer) (streamHandler serviceCtx streamAcceptor : Option Nat) : Except Fault MrpcServer := do
  ffAssert (streamHandler ≠ none)
  ffAssert (streamAcceptor ≠ none)
  ffAssert (x.streamHandler = none)
  ffAssert (x.serviceCtx = none)
  ffAssert (x.streamAcceptor = none)
  ffAssert (x.activeStreamProcessorsCnt = 0)
  .ok { x with
    streamHandler := streamHandler
    serviceCtx := serviceCtx
    streamAcceptor := streamAcceptor
    main := .starting
    phase := .running }

/-- `mrpc_server_stop` up to its wait. -/
def stop (x : MrpcServer) : Except Fault MrpcServer := do
  ffAssert (x.streamHandler ≠ none)
  ffAssert (x.streamAcceptor ≠ none)
  .ok { x with phase := .stopping }

/-- The end of `mrpc_server_stop`. -/
def stopReturn (x : MrpcServer) : Except Fault MrpcServer := do
  ffAssert (x.activeStreamProcessorsCnt = 0)
  .ok { x with
    stopEvent := false
    streamHandler := none
    serviceCtx := none
    streamAcceptor := none
    phase := .stopped }

/-- `mrpc_server_delete`, with the stream processors of its pool; what is left of the bitmap. -/
def delete (x : MrpcServer) : Except Fault Bitmap := do
  ffAssert (x.streamHandler = none)
  ffAssert (x.serviceCtx = none)
  ffAssert (x.streamAcceptor = none)
  ffAssert (x.activeStreamProcessorsCnt = 0)
  let x ← x.streamProcessorsPool.free.foldlM deleteStreamProcessor x
  .ok x.streamProcessorsBitmap

/-- What may happen next.  `accept stream`: the acceptor returns a client's stream; `acquired`: the wait for a stream
processor ends; `processor p c`: a fiber of a stream processor takes a step. -/
inductive Call where
  | start (streamHandler serviceCtx streamAcceptor : Option Nat)
  | mainStart
  | accept (stream : Nat)
  | acquired
  | acceptNull
  | allStopped
  | processor (p : Nat) (c : Mrpc.Call)
  | stop
  | stopReturn
  | delete
  deriving DecidableEq, Repr

/-- The server's own calls of its stream processors are no steps of their fibers. -/
def Fibers : Mrpc.Call → Bool
  | .start _ _ _ | .stopAsync | .delete => false
  | _ => true

/-- A fiber of a stream processor takes a step; its reader's last one calls `release_stream_processor`. -/
def stepProcessor (x : MrpcServer) (p : Nat) (c : Mrpc.Call) : Except Fault (Option MrpcServer) :=
  if p < x.streamProcessorsPool.created ∧ Fibers c = true then do
    let moved ← x.callProcessor p c
    match moved with
    | none => .ok none
    | some x =>
      if (x.processors p).server.core.reader = .stopped then do
        let x ← x.releaseStreamProcessor p
        .ok (some x)
      else .ok (some x)
  else .ok none

/-- The server with its assertions; none where a call cannot come next. -/
def call (x : MrpcServer) : Call → Except Fault (Option MrpcServer)
  | .start streamHandler serviceCtx streamAcceptor => some <$> x.start streamHandler serviceCtx streamAcceptor
  | .mainStart => if x.main = .starting then some <$> x.mainStart else .ok none
  | .accept stream => if x.main = .accepting ∧ x.phase = .running then some <$> x.serve stream else .ok none
  | .acquired =>
    match x.main, x.clientStream with
    | .acquiring, some stream =>
      if x.streamProcessorsPool.exhausted then .ok none else some <$> x.serve stream
    | _, _ => .ok none
  | .acceptNull =>
    if x.main = .accepting ∧ x.phase = .stopping then do
      let x ← x.stopAllStreamProcessors
      .ok (some { x with main := .waitingProcessors })
    else .ok none
  | .allStopped =>
    if x.main = .waitingProcessors ∧ x.streamProcessorsStopEvent then do
      ffAssert (x.activeStreamProcessorsCnt = 0)
      .ok (some { x with streamProcessorsStopEvent := false, stopEvent := true, main := .stopped })
    else .ok none
  | .processor p c => x.stepProcessor p c
  | .stop => some <$> x.stop
  | .stopReturn => if x.phase = .stopping ∧ x.stopEvent then some <$> x.stopReturn else .ok none
  | .delete => do
    let _ ← x.delete
    .ok none

/-- The step of a run. -/
def step (x : MrpcServer) (c : Call) : Option MrpcServer :=
  match x.call c with
  | .ok y => y
  | .error _ => none

/-- What the user of a server keeps to: a server is started with a handler and an acceptor, when it is not running, stopped
when it is, and deleted when it is not; and the handlers write and flush as `Session.Disciplined` says. -/
def Disciplined (x : MrpcServer) : Call → Prop
  | .start streamHandler _ streamAcceptor => x.phase = .stopped ∧ streamHandler ≠ none ∧ streamAcceptor ≠ none
  | .processor p c => Session.Disciplined (x.processors p) c
  | .stop => x.phase = .running
  | .delete => x.phase = .stopped
  | _ => True

/-! ## What it has to do with `Server` -/

variable {n : Nat} {x y : MrpcServer} {s t : Server n} {p : Nat} {i : Fin n}

/-- The server in the state `x` is in the state `s` of the model: the stream processor with the id `i` is the one of
number `i`, and those that were not made yet are as they will be. -/
structure Implements (x : MrpcServer) (s : Server n) : Prop where
  max : x.maxStreamProcessorsCnt = n
  pool : x.streamProcessorsPool.WellFormed id
  capacity : x.streamProcessorsPool.capacity = n
  bitmap : x.streamProcessorsBitmap.WellFormed
  size : x.streamProcessorsBitmap.size = n
  holds : ∀ k, x.streamProcessorsBitmap.Holds k ↔ ∃ p < x.streamProcessorsPool.created, x.ids p = k
  distinct : ∀ p < x.streamProcessorsPool.created, ∀ q < x.streamProcessorsPool.created, x.ids p = x.ids q → p = q
  safe : ∀ p, (x.processors p).Safe
  core : ∀ p < x.streamProcessorsPool.created, ∀ i : Fin n, x.ids p = i →
    s.streamProcessors i = (x.processors p).server.core
  fresh : ∀ i : Fin n, (∀ p < x.streamProcessorsPool.created, x.ids p ≠ i) →
    s.streamProcessors i = ServerStreamProcessor.create
  idle : ∀ p, ¬ x.streamProcessorsPool.InUse id p → (x.processors p).server.core.reader = .stopped
  slot : ∀ k p, x.activeStreamProcessors k = some p ↔ x.streamProcessorsPool.InUse id p ∧ x.ids p = k
  active : ∀ i : Fin n, s.active i = (x.activeStreamProcessors i).isSome
  activeCnt : x.activeStreamProcessorsCnt = s.activeCnt
  streamProcessorsStopEvent : x.streamProcessorsStopEvent = s.streamProcessorsStopEvent
  stopEvent : x.stopEvent = s.stopEvent
  main : x.main = s.main
  phase : x.phase = s.phase
  stopped : x.phase = .stopped → x.streamHandler = none ∧ x.serviceCtx = none ∧ x.streamAcceptor = none
  started : x.phase ≠ .stopped → x.streamHandler ≠ none ∧ x.streamAcceptor ≠ none
  clientStream : x.main = .acquiring → x.clientStream ≠ none

theorem implements_create (hn : 0 < n) : ∃ x, create n = .ok x ∧ x.Implements (Server.create n) := by
  obtain ⟨bitmap, hcreate, hwf, hsize, hclear⟩ := Bitmap.wellFormed_create hn
  refine ⟨initial n bitmap, ?_, ?_⟩
  · rw [create, ffAssert_of hn, ok_bind, hcreate, ok_bind]
  · exact
      { max := rfl
        pool := Pool.wellFormed_empty id n
        capacity := rfl
        bitmap := hwf
        size := hsize
        holds := fun k => iff_of_false (hclear k) fun ⟨p, hp, _⟩ => absurd hp (Nat.not_lt_zero p)
        distinct := fun p hp => absurd hp (Nat.not_lt_zero p)
        safe := fun _ => Session.safe_create
        core := fun p hp => absurd hp (Nat.not_lt_zero p)
        fresh := fun _ _ => rfl
        idle := fun _ _ => rfl
        slot := fun k p => iff_of_false (fun hk => by cases hk) fun h => Pool.not_inUse_empty id n p h.1
        active := fun _ => rfl
        activeCnt := rfl
        streamProcessorsStopEvent := rfl
        stopEvent := rfl
        main := rfl
        phase := rfl
        stopped := fun _ => ⟨rfl, rfl, rfl⟩
        started := fun h => absurd rfl h
        clientStream := fun h => by cases h }

namespace Implements

/-! ## Ids -/

theorem id_lt (h : x.Implements s) (hp : p < x.streamProcessorsPool.created) : x.ids p < n := by
  rw [← h.size]
  exact h.bitmap.padding _ ((h.holds _).2 ⟨p, hp, rfl⟩)

theorem created_le (h : x.Implements s) : x.streamProcessorsPool.created ≤ n := by
  rw [← h.capacity]
  exact h.pool.capacity

theorem pos (h : x.Implements s) : 0 < n := by
  rw [← h.size]
  exact h.bitmap.size

/-- The ids of the stream processors that were made. -/
theorem card_ids (h : x.Implements s) :
    ((Finset.range x.streamProcessorsPool.created).image x.ids).card = x.streamProcessorsPool.created := by
  rw [Finset.card_image_of_injOn, Finset.card_range]
  intro p hp q hq heq
  exact h.distinct p (by simpa using hp) q (by simpa using hq) heq

/-- **While the pool may make one more, an id is left for it.** -/
theorem acquireStreamProcessorId_spec (h : x.Implements s) (hlt : x.streamProcessorsPool.created < n) :
    ∃ k bitmap, x.acquireStreamProcessorId = .ok (k, { x with streamProcessorsBitmap := bitmap }) ∧
      x.streamProcessorsBitmap.Acquired bitmap k := by
  rcases h.bitmap.acquireBit_spec with ⟨j, bitmap, hrun, hacq, -⟩ | ⟨-, hall⟩
  · refine ⟨_, bitmap, ?_, hacq⟩
    have hk := hacq.lt
    rw [h.size] at hk hrun
    rw [acquireStreamProcessorId, hrun, ok_bind]
    dsimp only
    rw [ffAssert_of (by omega), ok_bind, ffAssert_of (by rw [h.max]; omega), ok_bind, Int.toNat_natCast, h.size]
  · -- all ids would be taken
    have hsub : Finset.range n ⊆ (Finset.range x.streamProcessorsPool.created).image x.ids := by
      intro k hk
      obtain ⟨p, hp, rfl⟩ := (h.holds k).1 (hall k (by rw [h.size]; simpa using hk))
      exact Finset.mem_image_of_mem _ (by simpa using hp)
    have hle := Finset.card_le_card hsub
    rw [h.card_ids, Finset.card_range] at hle
    omega

/-- **A pool that has nothing left serves as many clients as it may.** -/
theorem active_of_exhausted (h : x.Implements s) (he : x.streamProcessorsPool.exhausted) (i : Fin n) :
    s.active i = true := by
  obtain ⟨hfree, hcap⟩ := he
  have hcreated : x.streamProcessorsPool.created = n := Nat.le_antisymm h.created_le (h.capacity ▸ hcap)
  have hall : (Finset.range x.streamProcessorsPool.created).image x.ids = Finset.range n := by
    refine Finset.eq_of_subset_of_card_le (fun k hk => ?_) ?_
    · obtain ⟨p, hp, rfl⟩ := Finset.mem_image.1 hk
      exact Finset.mem_range.2 (h.id_lt (Finset.mem_range.1 hp))
    · rw [h.card_ids, Finset.card_range, hcreated]
  obtain ⟨p, hp, hid⟩ := Finset.mem_image.1 (hall ▸ Finset.mem_range.2 i.isLt)
  have huse : x.streamProcessorsPool.InUse id p := ⟨Finset.mem_range.1 hp, by simp [hfree]⟩
  rw [h.active, (h.slot i p).2 ⟨huse, hid⟩]
  rfl

theorem activeCnt_le (h : x.Implements s) (hs : s.Sound) : x.activeStreamProcessorsCnt ≤ x.maxStreamProcessorsCnt := by
  have hle := Finset.card_filter_le (Finset.univ : Finset (Fin n)) fun i => s.active i = true
  rw [Finset.card_univ, Fintype.card_fin] at hle
  rw [h.max, h.activeCnt, hs.activeCnt]
  exact hle

/-- An active stream processor has its number, and serves. -/
theorem of_inUse (h : x.Implements s) (hs : s.Sound) (hp : x.streamProcessorsPool.InUse id p) :
    ∃ i : Fin n, x.ids p = i ∧ s.active i = true ∧ (x.processors p).server.core.reader ≠ .stopped := by
  let i : Fin n := ⟨x.ids p, h.id_lt hp.1⟩
  have hactive : s.active i = true := by
    rw [h.active, (h.slot i p).2 ⟨hp, rfl⟩]
    rfl
  refine ⟨i, rfl, hactive, ?_⟩
  rw [← h.core p hp.1 i rfl]
  exact hs.running i hactive

/-! ## What changes -/

/-- **A stream processor moves.** -/
theorem update (h : x.Implements s) (hp : x.streamProcessorsPool.InUse id p) (hi : x.ids p = i) {session : Session}
    (hsafe : session.Safe) :
    { x with processors := Function.update x.processors p session }.Implements
      { s with streamProcessors := Function.update s.streamProcessors i session.server.core } := by
  refine { h with safe := fun q => ?_, core := fun q hq j hj => ?_, fresh := fun j hj => ?_, idle := fun q hq => ?_ }
  · by_cases hqp : q = p
    · subst hqp
      simpa using hsafe
    · simpa [hqp] using h.safe q
  · by_cases hqp : q = p
    · subst hqp
      have hij : j = i := Fin.ext (hj.symm.trans hi)
      subst hij
      simp
    · have hij : j ≠ i := fun hij => hqp (h.distinct q hq p hp.1 (by rw [hi, hj, hij]))
      simpa [hqp, hij] using h.core q hq j hj
  · have hij : j ≠ i := fun hij => hj p hp.1 (by rw [hi, hij])
    simpa [hij] using h.fresh j hj
  · have hqp : q ≠ p := fun hqp => hq (hqp ▸ hp)
    simpa [hqp] using h.idle q hq

/-- **The pool makes a stream processor**, which the model had all the time. -/
theorem make (h : x.Implements s) (hfree : x.streamProcessorsPool.free = [])
    (hlt : x.streamProcessorsPool.created < n) :
    ∃ k bitmap, x.acquireStreamProcessorId = .ok (k, { x with streamProcessorsBitmap := bitmap }) ∧
      { x with
        streamProcessorsBitmap := bitmap
        streamProcessorsPool := { x.streamProcessorsPool with
          created := x.streamProcessorsPool.created + 1
          free := [x.streamProcessorsPool.created] }
        processors := Function.update x.processors x.streamProcessorsPool.created Session.create
        ids := Function.update x.ids x.streamProcessorsPool.created k }.Implements s := by
  obtain ⟨k, bitmap, hrun, hacq⟩ := h.acquireStreamProcessorId_spec hlt
  generalize hc : x.streamProcessorsPool.created = c at hlt
  have hnew : ∀ q < c, x.ids q ≠ k := fun q hq hid => hacq.clear ((h.holds k).2 ⟨q, by rw [hc]; exact hq, hid⟩)
  have hids : ∀ q < c, Function.update x.ids c k q = x.ids q := fun q hq => Function.update_of_ne (by omega) _ _
  have huse : ∀ q, Pool.InUse id { x.streamProcessorsPool with created := c + 1, free := [c] } q ↔
      x.streamProcessorsPool.InUse id q := fun q => by
    show q < c + 1 ∧ q ∉ [c].map id ↔ q < x.streamProcessorsPool.created ∧ q ∉ x.streamProcessorsPool.free.map id
    rw [hc, hfree]
    simp
    omega
  refine ⟨k, bitmap, hrun, { h with
    pool := ?pool, bitmap := hacq.wellFormed, size := hacq.size.trans h.size, holds := ?holds, distinct := ?distinct
    safe := ?safe, core := ?core, fresh := ?fresh, idle := ?idle, slot := ?slot }⟩
  all_goals dsimp only
  case pool =>
    refine ⟨by simp, fun q hq => ?_, ?_⟩
    · rw [List.mem_singleton.1 hq]
      exact Nat.lt_succ_self c
    · rw [h.capacity]
      exact hlt
  case holds =>
    intro m
    rw [hacq.holds, h.holds, hc]
    constructor
    · rintro (rfl | ⟨q, hq, rfl⟩)
      · exact ⟨c, Nat.lt_succ_self c, Function.update_self ..⟩
      · exact ⟨q, Nat.lt_succ_of_lt hq, hids q hq⟩
    · rintro ⟨q, hq, rfl⟩
      rcases Nat.lt_succ_iff_lt_or_eq.1 hq with hq | rfl
      · exact Or.inr ⟨q, hq, (hids q hq).symm⟩
      · exact Or.inl (Function.update_self ..)
  case distinct =>
    have hself : Function.update x.ids c k c = k := Function.update_self ..
    intro q hq r hr heq
    rcases Nat.lt_succ_iff_lt_or_eq.1 hq with hq | rfl
    · rw [hids q hq] at heq
      rcases Nat.lt_succ_iff_lt_or_eq.1 hr with hr | rfl
      · rw [hids r hr] at heq
        exact h.distinct q (by omega) r (by omega) heq
      · exact absurd (heq.trans hself) (hnew q hq)
    · rcases Nat.lt_succ_iff_lt_or_eq.1 hr with hr | rfl
      · rw [hids r hr, hself] at heq
        exact absurd heq.symm (hnew r hr)
      · rfl
  case safe =>
    intro q
    by_cases hq : q = c
    · subst hq
      simpa using Session.safe_create
    · simpa [hq] using h.safe q
  case core =>
    intro q hq j hj
    rcases Nat.lt_succ_iff_lt_or_eq.1 hq with hq | rfl
    · rw [hids q hq] at hj
      rw [Function.update_of_ne (by omega)]
      exact h.core q (by omega) j hj
    · rw [Function.update_self] at hj ⊢
      exact h.fresh j fun r hr hid => hnew r (by omega) (hid.trans hj.symm)
  case fresh =>
    intro j hj
    refine h.fresh j fun q hq => ?_
    have := hj q (by omega)
    rwa [hids q (by omega)] at this
  case idle =>
    intro q hq
    rw [huse] at hq
    by_cases hqc : q = c
    · subst hqc
      rw [Function.update_self]
      rfl
    · rw [Function.update_of_ne hqc]
      exact h.idle q hq
  case slot =>
    intro m q
    rw [huse, h.slot]
    refine and_congr_right fun hq => ?_
    rw [hids q (hc ▸ hq.1)]

/-- **The pool hands out a stream processor**, made before or just now, or has nothing left. -/
theorem acquireEntry_spec (h : x.Implements s) :
    (x.streamProcessorsPool.exhausted ∧ x.acquireEntry = .ok none) ∨
    (¬ x.streamProcessorsPool.exhausted ∧ ∃ (y : MrpcServer) (p : Nat) (rest : List Nat), y.Implements s ∧
      y.streamProcessorsPool.free = p :: rest ∧ x.acquireEntry =
        .ok (some (p, { y with streamProcessorsPool := { y.streamProcessorsPool with free := rest } }))) := by
  unfold acquireEntry
  cases ha : x.streamProcessorsPool.acquire id with
  | none => exact Or.inl ⟨Pool.acquire_eq_none.1 ha, rfl⟩
  | some acquired =>
    obtain ⟨p, pool⟩ := acquired
    have hsome : ¬ x.streamProcessorsPool.exhausted := fun he => by
      rw [Pool.acquire_eq_none.2 he] at ha
      cases ha
    refine Or.inr ⟨hsome, ?_⟩
    dsimp only
    rcases Pool.acquire_cases ha with ⟨rest, hfree, rfl⟩ | ⟨hfree, hlt, rfl, rfl⟩
    · refine ⟨x, p, rest, h, hfree, ?_⟩
      rw [if_neg (by rw [hfree]; exact List.cons_ne_nil _ _)]
    · obtain ⟨k, bitmap, hrun, hmade⟩ := h.make hfree (h.capacity ▸ hlt)
      refine ⟨_, _, [], hmade, rfl, ?_⟩
      rw [if_pos hfree, createStreamProcessor, hrun, ok_bind, ok_bind, hfree]
      rfl

/-- **The stream processor at hand becomes active.** -/
theorem take (h : x.Implements s) {rest : List Nat} (hfree : x.streamProcessorsPool.free = p :: rest) (hi : x.ids p = i) :
    x.activeStreamProcessors (x.ids p) = none ∧
    { x with
      streamProcessorsPool := { x.streamProcessorsPool with free := rest }
      activeStreamProcessors := Function.update x.activeStreamProcessors (x.ids p) (some p)
      activeStreamProcessorsCnt := x.activeStreamProcessorsCnt + 1
      streamProcessorsStopEvent := if x.activeStreamProcessorsCnt + 1 = 1 then false else x.streamProcessorsStopEvent
      }.Implements
    { s with
      active := Function.update s.active i true
      activeCnt := s.activeCnt + 1
      streamProcessorsStopEvent := if s.activeCnt + 1 = 1 then false else s.streamProcessorsStopEvent } := by
  have htaken : x.streamProcessorsPool.acquire id = some (p, { x.streamProcessorsPool with free := rest }) := by
    unfold Pool.acquire
    rw [hfree]
  obtain ⟨hpool, -, hnot, huse⟩ := Pool.acquire_spec (fun n => (rfl : id (id n) = n)) h.pool htaken
  have huse : ∀ q, Pool.InUse id { x.streamProcessorsPool with free := rest } q ↔
      q = p ∨ x.streamProcessorsPool.InUse id q := huse
  have hp : p < x.streamProcessorsPool.created := h.pool.created p (by rw [hfree]; exact List.mem_cons_self)
  have hnone : x.activeStreamProcessors (x.ids p) = none := by
    rw [Option.eq_none_iff_forall_ne_some]
    intro q hq
    obtain ⟨hq, hid⟩ := (h.slot _ _).1 hq
    exact hnot (h.distinct q hq.1 p hp hid ▸ hq)
  refine ⟨hnone, { h with
    pool := hpool, idle := fun q hq => h.idle q fun hin => hq ((huse q).2 (Or.inr hin)), slot := fun k q => ?_
    active := fun j => ?_, activeCnt := congrArg (· + 1) h.activeCnt, streamProcessorsStopEvent := ?_ }⟩
  · dsimp only
    rw [huse]
    by_cases hk : k = x.ids p
    · subst hk
      rw [Function.update_self, Option.some.injEq]
      constructor
      · rintro rfl
        exact ⟨Or.inl rfl, rfl⟩
      · rintro ⟨rfl | hq, hid⟩
        · rfl
        · exact h.distinct p hp q hq.1 hid.symm
    · rw [Function.update_of_ne hk, h.slot]
      constructor
      · exact fun hq => ⟨Or.inr hq.1, hq.2⟩
      · rintro ⟨rfl | hq, hid⟩
        · exact absurd hid.symm hk
        · exact ⟨hq, hid⟩
  · dsimp only
    by_cases hj : j = i
    · subst hj
      rw [hi, Function.update_self, Function.update_self]
      rfl
    · rw [Function.update_of_ne hj, hi, Function.update_of_ne (fun he => hj (Fin.ext he))]
      exact h.active j
  · dsimp only
    rw [h.activeCnt, h.streamProcessorsStopEvent]

/-- **A stream processor that has stopped is released.** -/
theorem release (h : x.Implements s) (hpos : 0 < s.activeCnt) (hle : s.activeCnt ≤ n)
    (hp : x.streamProcessorsPool.InUse id p) (hi : x.ids p = i) (hr : (x.processors p).server.core.reader = .stopped) :
    ∃ y, x.releaseStreamProcessor p = .ok y ∧ y.Implements (s.releaseStreamProcessor i) := by
  obtain ⟨hpool, huse⟩ := Pool.release_spec h.pool (a := p) hp
  have huse : ∀ q, (x.streamProcessorsPool.release p).InUse id q ↔ q ≠ p ∧ x.streamProcessorsPool.InUse id q := huse
  refine ⟨{ x with
    activeStreamProcessors := Function.update x.activeStreamProcessors (x.ids p) none
    streamProcessorsPool := x.streamProcessorsPool.release p
    activeStreamProcessorsCnt := x.activeStreamProcessorsCnt - 1
    streamProcessorsStopEvent := if x.activeStreamProcessorsCnt - 1 = 0 then true else x.streamProcessorsStopEvent },
    ?_, { h with
    pool := hpool, idle := fun q hq => ?idle, slot := fun k q => ?slot, active := fun j => ?active
    activeCnt := congrArg (· - 1) h.activeCnt, streamProcessorsStopEvent := ?event }⟩
  · rw [releaseStreamProcessor, ffAssert_of (by rw [h.activeCnt]; exact hpos), ok_bind,
      ffAssert_of (by rw [h.activeCnt, h.max]; exact hle), ok_bind, ffAssert_of ((h.slot _ _).2 ⟨hp, rfl⟩), ok_bind]
  case idle =>
    by_cases hqp : q = p
    · subst hqp
      exact hr
    · exact h.idle q fun hin => hq ((huse q).2 ⟨hqp, hin⟩)
  case slot =>
    dsimp only
    rw [huse]
    by_cases hk : k = x.ids p
    · subst hk
      rw [Function.update_self]
      refine iff_of_false (fun hq => by cases hq) fun ⟨⟨hqp, hq⟩, hid⟩ => hqp (h.distinct q hq.1 p hp.1 hid)
    · rw [Function.update_of_ne hk, h.slot]
      exact ⟨fun hq => ⟨⟨fun hqp => hk (by rw [← hq.2, hqp]), hq.1⟩, hq.2⟩, fun hq => ⟨hq.1.2, hq.2⟩⟩
  case active =>
    show Function.update s.active i false j = (Function.update x.activeStreamProcessors (x.ids p) none j).isSome
    by_cases hj : j = i
    · subst hj
      rw [hi, Function.update_self, Function.update_self]
      rfl
    · rw [Function.update_of_ne hj, hi, Function.update_of_ne (fun he => hj (Fin.ext he))]
      exact h.active j
  case event =>
    show (if x.activeStreamProcessorsCnt - 1 = 0 then true else x.streamProcessorsStopEvent)
      = if s.activeCnt - 1 = 0 then true else s.streamProcessorsStopEvent
    rw [h.activeCnt, h.streamProcessorsStopEvent]

end Implements
end MrpcServer

/-! ## Steps of stream processors -/

theorem MrpcServer.action_of_fibers {c : Mrpc.Call} (hc : Fibers c = true) {a : ServerStreamProcessor.Action}
    (ha : c.action = some a) : a ≠ .start ∧ a ≠ .stopAsync := by
  cases c with
  | start | stopAsync | delete => cases hc
  | writerStart | processRequest => cases ha
  | event | readerStart | receive | handlerReturn =>
    cases ha
    exact ⟨by simp, by simp⟩

namespace Session

variable {x x' : Session} {c : Call}

theorem Safe.checked_eq (h : x.Safe) (hd : Disciplined x c) : x.checked c = .ok (x.unchecked c) := by
  rw [checked, h.call_eq hd, ok_bind]
  rfl

/-- **Only the fibers of a stream processor that serves a client take steps.** -/
theorem Safe.moves (h : x.Safe) (hd : Disciplined x c) (hc : MrpcServer.Fibers c = true) (hu : x.unchecked c = some x') :
    x.server.core.reader ≠ .stopped ∧ (x' = x ∨ ∃ a, a ≠ .start ∧ a ≠ .stopAsync ∧
      ServerStreamProcessor.step x.server.core a = some x'.server.core) := by
  obtain ⟨server, hplain, rfl⟩ := Option.map_eq_some_iff.1 hu
  unfold ServerProcessor.plain at hplain
  have hstate : x.server.core.state ≠ .stopped → x.server.core.reader ≠ .stopped := fun hst hr => hst (h.stopped hr).1
  cases ha : c.action with
  | none =>
    rw [ha] at hplain
    obtain ⟨hstarts, hplain⟩ := Option.ite_none_right_eq_some.1 hplain
    cases hplain
    refine ⟨hstate ?_, Or.inl rfl⟩
    cases c with
    | writerStart =>
      have hw : x.server.core.writer = .getting := hstarts
      exact h.state_of_writer (by simp [hw])
    | processRequest o => exact h.ready.state o hstarts.1
    | _ => cases hstarts
  | some a =>
    rw [ha] at hplain
    obtain ⟨core, hcore, rfl⟩ := Option.map_eq_some_iff.1 hplain
    have hne := MrpcServer.action_of_fibers hc ha
    refine ⟨(h.reader_ne_stopped hcore hne.1).1, Or.inr ⟨a, hne.1, hne.2, ?_⟩⟩
    rw [hcore]
    exact congrArg some (h.pointers hd ha hcore).1.symm

end Session

namespace MrpcServer

variable {n : Nat} {x y : MrpcServer} {s t : Server n} {p : Nat} {i : Fin n}

theorem callProcessor_eq (h : (x.processors p).Safe) {c : Mrpc.Call} (hd : Session.Disciplined (x.processors p) c) :
    x.callProcessor p c = .ok (((x.processors p).unchecked c).map fun session =>
      { x with processors := Function.update x.processors p session }) := by
  rw [callProcessor, h.checked_eq hd, ok_bind]

end MrpcServer

theorem Server.Sound.activeCnt_le {n : Nat} {s : Server n} (h : s.Sound) : s.activeCnt ≤ n := by
  have hle := Finset.card_filter_le (Finset.univ : Finset (Fin n)) fun i => s.active i = true
  rw [Finset.card_univ, Fintype.card_fin] at hle
  rw [h.activeCnt]
  exact hle

theorem Server.Sound.activeCnt_lt {n : Nat} {s : Server n} (h : s.Sound) {i : Fin n} (hi : s.active i = false) :
    s.activeCnt < n := by
  have hlt := Finset.card_lt_univ_of_notMem (s := Finset.univ.filter fun i => s.active i = true) (x := i) (by simp [hi])
  rw [Fintype.card_fin] at hlt
  rw [h.activeCnt]
  exact hlt

namespace MrpcServer
namespace Implements

variable {n : Nat} {x y : MrpcServer} {s t : Server n} {p : Nat} {i : Fin n}

/-- **A step of a stream processor is one of the model**, or leaves everything as it was. -/
theorem stepProcessor_spec (h : x.Implements s) (hs : s.Sound) {c : Mrpc.Call}
    (hd : Session.Disciplined (x.processors p) c) :
    ∃ r, x.stepProcessor p c = .ok r ∧ ∀ y, r = some y → ∃ as t, Run.exec Server.step s as = some t ∧ y.Implements t := by
  unfold stepProcessor
  by_cases hg : p < x.streamProcessorsPool.created ∧ Fibers c = true
  · rw [if_pos hg, callProcessor_eq (h.safe p) hd, ok_bind]
    cases hu : (x.processors p).unchecked c with
    | none => exact ⟨none, rfl, fun y hy => by cases hy⟩
    | some session =>
      have hself : Function.update x.processors p session p = session := Function.update_self ..
      obtain ⟨hr, hmove⟩ := (h.safe p).moves hd hg.2 hu
      have hp : x.streamProcessorsPool.InUse id p := by
        by_contra hnot
        exact hr (h.idle p hnot)
      obtain ⟨i, hi, hactive, -⟩ := h.of_inUse hs hp
      have hnext := h.update hp hi ((h.safe p).step hd hu)
      dsimp only [Option.map_some]
      rcases hmove with rfl | ⟨a, hstart, hstop, hstep⟩
      · rw [Function.update_eq_self, if_neg hr]
        exact ⟨_, rfl, fun y hy => ⟨[], s, rfl, by cases hy; exact h⟩⟩
      · rw [← h.core p hp.1 i hi] at hstep
        have hmodel : s.stepStreamProcessor i a = some
            (if session.server.core.reader = .stopped then
              { s with streamProcessors := Function.update s.streamProcessors i session.server.core
                }.releaseStreamProcessor i
            else { s with streamProcessors := Function.update s.streamProcessors i session.server.core }) := by
          rw [Server.stepStreamProcessor, if_pos ⟨hactive, hstart, hstop⟩, hstep]
          rfl
        by_cases hend : session.server.core.reader = .stopped
        · rw [if_pos hend] at hmodel
          have hstopped : (Function.update x.processors p session p).server.core.reader = .stopped := by
            rw [hself]
            exact hend
          obtain ⟨y, hrelease, hy⟩ := hnext.release (hs.activeCnt_pos hactive) hs.activeCnt_le hp hi hstopped
          rw [if_pos hstopped, hrelease, ok_bind]
          exact ⟨_, rfl, fun z hz => ⟨[.streamProcessor i a], _, Run.exec_cons_of [] hmodel, by cases hz; exact hy⟩⟩
        · rw [if_neg hend] at hmodel
          rw [if_neg (by rw [hself]; exact hend)]
          exact ⟨_, rfl, fun z hz => ⟨[.streamProcessor i a], _, Run.exec_cons_of [] hmodel, by cases hz; exact hnext⟩⟩
  · rw [if_neg hg]
    exact ⟨none, rfl, fun y hy => by cases hy⟩

/-! ## Steps of the server -/

/-- **A client's stream is served** by a stream processor that was idle, or has to wait. -/
theorem serve_spec (h : x.Implements s) (hs : s.Sound) (hphase : s.phase ≠ .stopped) (stream : Nat) :
    (x.streamProcessorsPool.exhausted ∧
      x.serve stream = .ok { x with main := .acquiring, clientStream := some stream }) ∨
    (¬ x.streamProcessorsPool.exhausted ∧ ∃ (y : MrpcServer) (i : Fin n) (t : Server n), x.serve stream = .ok y ∧
      s.active i = false ∧ s.acquireStreamProcessor i = some t ∧ y.Implements t) := by
  unfold serve acquireStreamProcessor
  rw [ffAssert_of (h.activeCnt_le hs), ok_bind]
  rcases h.acquireEntry_spec with ⟨he, hrun⟩ | ⟨he, y, p, rest, hy, hfree, hrun⟩
  · rw [hrun, ok_bind]
    exact Or.inl ⟨he, rfl⟩
  · refine Or.inr ⟨he, ?_⟩
    have hp : p < y.streamProcessorsPool.created := hy.pool.created p (by rw [hfree]; exact List.mem_cons_self)
    let i : Fin n := ⟨y.ids p, hy.id_lt hp⟩
    obtain ⟨hnone, htaken⟩ := hy.take hfree (i := i) rfl
    have hi : s.active i = false := by
      rw [hy.active, hnone]
      rfl
    have hcnt : y.activeStreamProcessorsCnt + 1 ≤ y.maxStreamProcessorsCnt := by
      rw [hy.activeCnt, hy.max]
      exact hs.activeCnt_lt hi
    have hidle : (y.processors p).server.core.reader = .stopped := hy.idle p fun hin => hin.2 (by rw [hfree]; simp)
    have hstate := ((hy.safe p).stopped hidle).1
    obtain ⟨hhandler, -⟩ := hy.started (by rw [hy.phase]; exact hphase)
    have hd : Session.Disciplined (y.processors p) (.start y.streamHandler y.serviceCtx (some stream)) :=
      ⟨hhandler, by simp⟩
    let core : StreamProcessor := { (y.processors p).server.core with state := .working, reader := .starting }
    let session : Session := ⟨⟨core, y.streamHandler, y.serviceCtx, some stream⟩, (y.processors p).usage⟩
    have hstart : ServerStreamProcessor.start (y.processors p).server.core = some core := if_pos ⟨hidle, hstate⟩
    have hu : (y.processors p).unchecked (.start y.streamHandler y.serviceCtx (some stream)) = some session := by
      simp only [Session.unchecked, ServerProcessor.plain, Call.action, ServerStreamProcessor.step, hstart]
      rfl
    have hmodel : s.acquireStreamProcessor i = some
        { s with
          streamProcessors := Function.update s.streamProcessors i core
          active := Function.update s.active i true
          activeCnt := s.activeCnt + 1
          streamProcessorsStopEvent := if s.activeCnt + 1 = 1 then false else s.streamProcessorsStopEvent
          main := .accepting } := by
      rw [Server.acquireStreamProcessor, hy.core p hp i rfl, hstart]
      rfl
    have hin : Pool.InUse id { y.streamProcessorsPool with free := rest } p := by
      refine ⟨hp, fun hmem => ?_⟩
      have hnodup := hy.pool.nodup
      rw [hfree] at hnodup
      exact (List.nodup_cons.1 hnodup).1 hmem
    have hnext := htaken.update (p := p) (i := i) hin rfl ((hy.safe p).step hd hu)
    rw [hrun, ok_bind]
    dsimp only
    rw [ffAssert_of hnone, ok_bind, ffAssert_of hcnt, ok_bind, ok_bind]
    dsimp only [callProcessor]
    rw [(hy.safe p).checked_eq hd, hu, ok_bind, ok_bind]
    exact ⟨_, i, _, rfl, hi, hmodel, { hnext with main := rfl, clientStream := fun hm => by cases hm }⟩

/-- **An active stream processor is told to stop.** -/
theorem stopStreamProcessor_spec (h : x.Implements s)
    (hrunning : ∀ i, s.active i = true → (s.streamProcessors i).reader ≠ .stopped) (i : Fin n) :
    ∃ y, x.stopStreamProcessor i = .ok y ∧ y.Implements { s with
      streamProcessors := Function.update s.streamProcessors i
        (if s.active i = true then (s.streamProcessors i).stopAsync else s.streamProcessors i) } := by
  unfold stopStreamProcessor
  have hactive := h.active i
  cases hslot : x.activeStreamProcessors i with
  | none =>
    rw [hslot] at hactive
    refine ⟨x, rfl, ?_⟩
    rw [if_neg (by rw [hactive]; simp), Function.update_eq_self]
    exact h
  | some p =>
    have hactive : s.active i = true := by
      rw [hactive, hslot]
      rfl
    obtain ⟨hp, hi⟩ := (h.slot _ _).1 hslot
    have hcore := h.core p hp.1 i hi
    have hr : (x.processors p).server.core.reader ≠ .stopped := by
      rw [← hcore]
      exact hrunning i hactive
    have hst := (h.safe p).state_of_reader hr
    have hstop : ServerStreamProcessor.step (x.processors p).server.core .stopAsync
        = some (x.processors p).server.core.stopAsync := if_neg hst
    have hd : Session.Disciplined (x.processors p) .stopAsync := hr
    let session : Session := ⟨(x.processors p).server.pointersAfter .stopAsync (x.processors p).server.core.stopAsync,
      usageAfter (x.processors p).usage .stopAsync⟩
    have hu : (x.processors p).unchecked .stopAsync = some session := by
      simp only [Session.unchecked, ServerProcessor.plain, Call.action, hstop]
      rfl
    have hnext := h.update hp hi ((h.safe p).step hd hu)
    have hsame : session.server.core = (x.processors p).server.core.stopAsync :=
      ((h.safe p).pointers hd rfl hstop).1
    rw [hsame, ← hcore] at hnext
    dsimp only
    rw [callProcessor_eq (h.safe p) hd, hu, ok_bind, if_pos hactive]
    exact ⟨_, rfl, hnext⟩

/-- The loop of `stop_all_stream_processors` over some of the ids. -/
theorem foldlM_stopStreamProcessor : ∀ (is : List (Fin n)) {x : MrpcServer} {s : Server n}, x.Implements s →
    (∀ i, s.active i = true → (s.streamProcessors i).reader ≠ .stopped) → is.Nodup →
    ∃ y, (is.map Fin.val).foldlM stopStreamProcessor x = .ok y ∧ y.Implements { s with
      streamProcessors := fun i =>
        if i ∈ is ∧ s.active i = true then (s.streamProcessors i).stopAsync else s.streamProcessors i }
  | [], x, s, h, _, _ => ⟨x, rfl, by simpa using h⟩
  | i :: is, x, s, h, hrunning, hnodup => by
    obtain ⟨hi, hnodup⟩ := List.nodup_cons.1 hnodup
    obtain ⟨y, hrun, hy⟩ := h.stopStreamProcessor_spec hrunning i
    obtain ⟨z, hrest, hz⟩ := foldlM_stopStreamProcessor is hy (fun j hj => by
      dsimp only at hj ⊢
      by_cases hji : j = i
      · subst hji
        rw [Function.update_self, if_pos hj]
        exact hrunning j hj
      · rw [Function.update_of_ne hji]
        exact hrunning j hj) hnodup
    refine ⟨z, ?_, ?_⟩
    · rw [List.map_cons, List.foldlM_cons, hrun, ok_bind]
      exact hrest
    · have hsame : ∀ j,
          (if j ∈ i :: is ∧ s.active j = true then (s.streamProcessors j).stopAsync else s.streamProcessors j) =
          let old := Function.update s.streamProcessors i
            (if s.active i = true then (s.streamProcessors i).stopAsync else s.streamProcessors i)
          if j ∈ is ∧ s.active j = true then (old j).stopAsync else old j := fun j => by
        by_cases hji : j = i
        · subst hji
          simp [hi]
        · simp [hji]
      rw [funext hsame]
      exact hz

theorem stopAllStreamProcessors_spec (h : x.Implements s) (hs : s.Sound) :
    ∃ y, x.stopAllStreamProcessors = .ok y ∧ y.Implements s.stopAllStreamProcessors := by
  obtain ⟨y, hrun, hy⟩ := foldlM_stopStreamProcessor (List.finRange n) h hs.running (List.nodup_finRange n)
  refine ⟨y, ?_, ?_⟩
  · rw [stopAllStreamProcessors, ffAssert_of (by rw [h.max]; exact h.pos), ok_bind, h.max, ← List.map_coe_finRange_eq_range]
    exact hrun
  · unfold Server.stopAllStreamProcessors
    simpa using hy

/-! ## The end of a server -/

/-- The stream processors of the pool go, and their ids with them. -/
theorem foldlM_deleteStreamProcessor (h : x.Implements s) : ∀ (ps : List Nat) {bitmap : Bitmap}, bitmap.WellFormed →
    bitmap.size = n → (ps.map x.ids).Nodup → (∀ k, bitmap.Holds k ↔ k ∈ ps.map x.ids) →
    ∃ bitmap', ps.foldlM deleteStreamProcessor { x with streamProcessorsBitmap := bitmap }
      = .ok { x with streamProcessorsBitmap := bitmap' } ∧ ∀ k, ¬ bitmap'.Holds k
  | [], bitmap, _, _, _, hholds => ⟨bitmap, rfl, fun k hk => by cases (hholds k).1 hk⟩
  | p :: ps, bitmap, hwf, hsize, hnodup, hholds => by
    obtain ⟨hp, hnodup⟩ := List.nodup_cons.1 hnodup
    have hheld : bitmap.Holds (x.ids p) := (hholds _).2 List.mem_cons_self
    obtain ⟨bitmap₁, hrun, hwf₁, hsize₁, -, hholds₁⟩ := hwf.releaseBit_spec hheld
    have hlt := hwf.padding _ hheld
    obtain ⟨bitmap', hrest, hclear⟩ := foldlM_deleteStreamProcessor h ps hwf₁ (hsize₁.trans hsize) hnodup (fun k => by
      rw [hholds₁, hholds, List.map_cons, List.mem_cons]
      constructor
      · rintro ⟨hne, rfl | hk⟩
        · exact absurd rfl hne
        · exact hk
      · exact fun hk => ⟨fun he => hp (he ▸ hk), Or.inr hk⟩)
    have hone : deleteStreamProcessor { x with streamProcessorsBitmap := bitmap } p
        = .ok { x with streamProcessorsBitmap := bitmap₁ } := by
      have hd : Session.Disciplined (x.processors p) .delete := trivial
      dsimp only [deleteStreamProcessor, callProcessor, releaseStreamProcessorId]
      rw [(h.safe p).checked_eq hd, ok_bind, ok_bind, ffAssert_of (by rw [h.max, ← hsize]; exact hlt), ok_bind, hrun,
        ok_bind]
    refine ⟨bitmap', ?_, hclear⟩
    rw [List.foldlM_cons, hone, ok_bind]
    exact hrest

/-- **A server that is not running can be deleted**: all its stream processors are in the pool, and their ids come back. -/
theorem delete_spec (h : x.Implements s) (hs : s.Sound) (hphase : x.phase = .stopped) :
    ∃ bitmap, x.delete = .ok bitmap ∧ ∀ k, ¬ bitmap.Holds k := by
  obtain ⟨hhandler, hctx, hacceptor⟩ := h.stopped hphase
  have hcnt : s.activeCnt = 0 := hs.idle (Or.inl (hs.phase (h.phase ▸ hphase)).1)
  have hfree : ∀ p, p < x.streamProcessorsPool.created ↔ p ∈ x.streamProcessorsPool.free := fun p => by
    constructor
    · intro hp
      by_contra hnot
      obtain ⟨i, -, hactive, -⟩ := h.of_inUse hs (p := p) ⟨hp, by simpa using hnot⟩
      exact absurd (hs.activeCnt_pos hactive) (by omega)
    · exact h.pool.created p
  have hnodup : (x.streamProcessorsPool.free.map x.ids).Nodup := by
    have hfree' := h.pool.nodup
    rw [List.map_id] at hfree'
    exact (List.nodup_map_iff_inj_on hfree').2 fun p hp q hq =>
      h.distinct p ((hfree p).2 hp) q ((hfree q).2 hq)
  obtain ⟨bitmap, hrun, hclear⟩ := h.foldlM_deleteStreamProcessor x.streamProcessorsPool.free h.bitmap h.size hnodup
    (fun k => by
      rw [h.holds, List.mem_map]
      exact exists_congr fun p => and_congr_left' (hfree p))
  refine ⟨bitmap, ?_, hclear⟩
  rw [delete, ffAssert_of hhandler, ok_bind, ffAssert_of hctx, ok_bind, ffAssert_of hacceptor, ok_bind,
    ffAssert_of (by rw [h.activeCnt]; exact hcnt), ok_bind, hrun, ok_bind]

/-! ## Every call -/

/-- **No assertion fails in a call**, and what it does is a step of the model, or nothing that the model shows. -/
theorem call_spec (h : x.Implements s) (hs : s.Sound) {c : Call} (hd : x.Disciplined c) :
    ∃ r, x.call c = .ok r ∧ ∀ y, r = some y → ∃ as t, Run.exec Server.step s as = some t ∧ y.Implements t := by
  have hnone : ∀ y : MrpcServer, (none : Option MrpcServer) = some y →
      ∃ as t, Run.exec Server.step s as = some t ∧ y.Implements t := fun y hy => by cases hy
  have hone : ∀ {y : MrpcServer} {t : Server n} (a : Server.Action n), s.step a = some t → y.Implements t →
      ∀ z, some y = some z → ∃ as t, Run.exec Server.step s as = some t ∧ z.Implements t := fun a ha hy z hz => by
    cases hz
    exact ⟨[a], _, Run.exec_cons_of [] ha, hy⟩
  have hstarted : x.main ≠ .stopped → x.streamHandler ≠ none ∧ x.streamAcceptor ≠ none := fun hm =>
    h.started fun hp => hm (h.main.trans (hs.phase (h.phase ▸ hp)).1)
  cases c with
  | start streamHandler serviceCtx streamAcceptor =>
    obtain ⟨hphase, hhandler, hacceptor⟩ := hd
    obtain ⟨hhandler', hctx', hacceptor'⟩ := h.stopped hphase
    have hphase : s.phase = .stopped := h.phase ▸ hphase
    have hcnt : s.activeCnt = 0 := hs.idle (Or.inl (hs.phase hphase).1)
    simp only [call, start]
    rw [ffAssert_of hhandler, ok_bind, ffAssert_of hacceptor, ok_bind, ffAssert_of hhandler', ok_bind, ffAssert_of hctx',
      ok_bind, ffAssert_of hacceptor', ok_bind, ffAssert_of (by rw [h.activeCnt]; exact hcnt), ok_bind]
    exact ⟨_, rfl, hone .start (if_pos hphase) { h with
      main := rfl, phase := rfl, stopped := (fun hp => by cases hp), started := fun _ => ⟨hhandler, hacceptor⟩
      clientStream := fun hm => by cases hm }⟩
  | mainStart =>
    simp only [call]
    by_cases hm : x.main = .starting
    · have hm' : s.main = .starting := h.main ▸ hm
      obtain ⟨hhandler, hacceptor⟩ := hstarted (by rw [hm]; simp)
      rw [if_pos hm, mainStart, ffAssert_of (by rw [h.activeCnt]; exact hs.idle (Or.inr hm')), ok_bind, ffAssert_of hhandler,
        ok_bind, ffAssert_of hacceptor, ok_bind]
      exact ⟨_, rfl, hone .mainStart (if_pos hm') { h with
        streamProcessorsStopEvent := rfl, main := rfl, clientStream := fun hm => by cases hm }⟩
    · rw [if_neg hm]
      exact ⟨none, rfl, hnone⟩
  | accept stream =>
    simp only [call]
    by_cases hg : x.main = .accepting ∧ x.phase = .running
    · have hg' : s.main = .accepting ∧ s.phase = .running := ⟨h.main ▸ hg.1, h.phase ▸ hg.2⟩
      rw [if_pos hg]
      rcases h.serve_spec hs (by rw [hg'.2]; simp) stream with ⟨he, hrun⟩ | ⟨-, y, i, t, hrun, hi, ht, hy⟩
      · have hall := h.active_of_exhausted he
        have hstep : s.step (.accept ⟨0, h.pos⟩) = some { s with main := .acquiring } := by
          rw [Server.step, if_pos hg', if_pos (hall _), if_pos hall]
        rw [hrun]
        exact ⟨_, rfl, hone _ hstep { h with main := rfl, clientStream := fun _ => by simp }⟩
      · rw [hrun]
        refine ⟨_, rfl, hone (.accept i) ?_ hy⟩
        rw [Server.step, if_pos hg', if_neg (by simp [hi])]
        exact ht
    · rw [if_neg hg]
      exact ⟨none, rfl, hnone⟩
  | acquired =>
    simp only [call]
    split
    · rename_i stream hm hstream
      have hm' : s.main = .acquiring := h.main ▸ hm
      split
      · exact ⟨none, rfl, hnone⟩
      · rename_i he
        rcases h.serve_spec hs (fun hp => by rw [(hs.phase hp).1] at hm'; cases hm') stream with
          ⟨he', -⟩ | ⟨-, y, i, t, hrun, hi, ht, hy⟩
        · exact absurd he' he
        · rw [hrun]
          refine ⟨_, rfl, hone (.acquired i) ?_ hy⟩
          rw [Server.step, if_pos ⟨hm', by simp [hi]⟩]
          exact ht
    · exact ⟨none, rfl, hnone⟩
  | acceptNull =>
    simp only [call]
    by_cases hg : x.main = .accepting ∧ x.phase = .stopping
    · have hg' : s.main = .accepting ∧ s.phase = .stopping := ⟨h.main ▸ hg.1, h.phase ▸ hg.2⟩
      obtain ⟨y, hrun, hy⟩ := h.stopAllStreamProcessors_spec hs
      rw [if_pos hg, hrun, ok_bind]
      exact ⟨_, rfl, hone .acceptNull (if_pos hg') { hy with main := rfl, clientStream := fun hm => by cases hm }⟩
    · rw [if_neg hg]
      exact ⟨none, rfl, hnone⟩
  | allStopped =>
    simp only [call]
    by_cases hg : x.main = .waitingProcessors ∧ x.streamProcessorsStopEvent = true
    · have hg' : s.main = .waitingProcessors ∧ s.streamProcessorsStopEvent = true :=
        ⟨h.main ▸ hg.1, h.streamProcessorsStopEvent ▸ hg.2⟩
      have hcnt := (hs.event (by rw [hg'.1]; simp) (by rw [hg'.1]; simp)).1 hg'.2
      rw [if_pos hg, ffAssert_of (by rw [h.activeCnt]; exact hcnt), ok_bind]
      exact ⟨_, rfl, hone .allStopped (if_pos hg') { h with
        streamProcessorsStopEvent := rfl, stopEvent := rfl, main := rfl, clientStream := fun hm => by cases hm }⟩
    · rw [if_neg hg]
      exact ⟨none, rfl, hnone⟩
  | processor p c => exact h.stepProcessor_spec hs hd
  | stop =>
    have hphase : s.phase = .running := h.phase ▸ hd
    obtain ⟨hhandler, hacceptor⟩ := h.started (by rw [h.phase, hphase]; simp)
    simp only [call, stop]
    rw [ffAssert_of hhandler, ok_bind, ffAssert_of hacceptor, ok_bind]
    exact ⟨_, rfl, hone .stop (if_pos hphase) { h with
      phase := rfl, stopped := (fun hp => by cases hp), started := fun _ => ⟨hhandler, hacceptor⟩ }⟩
  | stopReturn =>
    simp only [call]
    by_cases hg : x.phase = .stopping ∧ x.stopEvent = true
    · have hg' : s.phase = .stopping ∧ s.stopEvent = true := ⟨h.phase ▸ hg.1, h.stopEvent ▸ hg.2⟩
      rw [if_pos hg, stopReturn, ffAssert_of (by rw [h.activeCnt]; exact hs.idle (Or.inl (hs.stopEvent hg'.2))), ok_bind]
      exact ⟨_, rfl, hone .stopReturn (if_pos hg') { h with
        stopEvent := rfl, phase := rfl, stopped := fun _ => ⟨rfl, rfl, rfl⟩, started := fun hp => absurd rfl hp }⟩
    · rw [if_neg hg]
      exact ⟨none, rfl, hnone⟩
  | delete =>
    obtain ⟨bitmap, hrun, -⟩ := h.delete_spec hs hd
    refine ⟨none, ?_, hnone⟩
    simp only [call]
    rw [hrun, ok_bind]

end Implements

/-- **No assertion of the server fails**, nor one of its stream processors, its bitmap or its packets, in any order of the
steps of its fibers and over any number of starts and stops: it does what `Server` does, with an id of its own for each
stream processor; and whenever it is not running it can be deleted, which gives every id back. -/
theorem no_fault (n : Nat) (hn : 0 < n) : ∃ x₀, create n = .ok x₀ ∧ ∀ (cs : List Call) (x : MrpcServer),
    Run.Meets step Disciplined x₀ cs → Run.exec step x₀ cs = some x →
      (∀ c, Disciplined x c → ∃ r, x.call c = .ok r) ∧
      (∃ as s, Run.exec Server.step (Server.create n) as = some s ∧ x.Implements s) ∧
      (x.phase = .stopped → ∃ bitmap, x.delete = .ok bitmap ∧ ∀ k, ¬ bitmap.Holds k) := by
  obtain ⟨x₀, hcreate, hx₀⟩ := implements_create hn
  refine ⟨x₀, hcreate, fun cs x hd hrun => ?_⟩
  obtain ⟨as, s, has, hx, hs⟩ := Run.simulation (R := fun x (s : Server n) => x.Implements s ∧ s.Sound)
    (fun x c y s hR hc hstep => by
      obtain ⟨r, hcall, hnext⟩ := hR.1.call_spec hR.2 hc
      rw [step, hcall] at hstep
      obtain ⟨as, t, has, hy⟩ := hnext y hstep
      have ht : t.Sound := Run.invariant (fun _ _ _ h _ hs => h.step hs) as hR.2 (Run.meets_true _ _) has
      exact ⟨as, t, has, hy, ht⟩) cs ⟨hx₀, Server.sound_create n⟩ hd hrun
  refine ⟨fun c hc => ?_, ⟨as, s, has, hx⟩, hx.delete_spec hs⟩
  obtain ⟨r, hcall, -⟩ := hx.call_spec hs hc
  exact ⟨r, hcall⟩

/-- A server for two clients serves one. -/
def serving : List Call :=
  [.start (some 1) none (some 2), .mainStart, .accept 3, .processor 0 .readerStart, .processor 0 .writerStart]

theorem no_fault_serving : ∃ x₀ x, create 2 = .ok x₀ ∧ Run.Meets step Disciplined x₀ serving ∧
    Run.exec step x₀ serving = some x ∧ x.activeStreamProcessors 0 = some 0 ∧ ∃ r, x.call .stop = .ok r := by
  obtain ⟨x₀, hcreate, hall⟩ := no_fault 2 (by decide)
  have hmeets : Run.Meets step Disciplined x₀ serving := by
    cases hcreate
    refine Run.meets_cons_of ⟨rfl, by decide, by decide⟩ rfl ?_
    refine Run.meets_cons_of trivial rfl ?_
    refine Run.meets_cons_of trivial rfl ?_
    refine Run.meets_cons_of trivial rfl ?_
    exact Run.meets_cons_of trivial rfl trivial
  cases hcreate
  obtain ⟨hok, -, -⟩ := hall serving _ hmeets rfl
  exact ⟨_, _, rfl, hmeets, rfl, rfl, hok .stop rfl⟩

end MrpcServer
end Mrpc
