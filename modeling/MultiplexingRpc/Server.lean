import MultiplexingRpc.RequestIds
/-!
# Server — accepting connections and stopping (`mrpc_server.c`)

One fiber accepts connections, hands each to a stream processor of the pool and waits there if all are in use; when the
acceptor returns `NULL` it tells all active stream processors to stop and waits for the last of them.  `mrpc_server_stop`
shuts the acceptor down and waits for that fiber.  The stream processor of number `i` has the id `i`; which idle one the
pool hands out is left open, and so is everything the clients do.
-/
namespace Mrpc

/-- Where `main_server_func` stands: `starting`, not yet scheduled; `acquiring`, inside `ff_pool_acquire_entry` with a
client's stream in hand; `waitingProcessors`, at the end of `stop_all_stream_processors`. -/
inductive MainServer where
  | stopped
  | starting
  | accepting
  | acquiring
  | waitingProcessors
  deriving DecidableEq, Repr

/-- `struct mrpc_server` with `n` as `max_stream_processors_cnt`. -/
structure Server (n : Nat) where
  streamProcessors : Fin n → StreamProcessor
  active : Fin n → Bool
  activeCnt : Nat
  streamProcessorsStopEvent : Bool
  stopEvent : Bool
  main : MainServer
  phase : RunPhase

namespace ServerStreamProcessor

/-- **Only `start` makes a processor work.** -/
theorem state_ne_working_step {s s' : StreamProcessor} {a : Action} (h : Sound s) (hne : s.state ≠ .working)
    (ha : a ≠ .start) (hs : step s a = some s') : s'.state ≠ .working := by
  have hstop : s.stopAsync.state ≠ .working := s.stopAsync_ne_working
  cases outcome_of_step hs with
  | event ht => exact fun hw => hne (ht.working h.core hw)
  | start => exact absurd rfl ha
  | readerStart | begun | continued => exact hne
  | unexpected | stopAsync => exact hstop
  | returned =>
    rw [StreamProcessor.releaseStream_eq]
    exact hne
  | failed =>
    rw [StreamProcessor.releaseStream_eq]
    exact hstop

end ServerStreamProcessor

namespace Server

variable {n : Nat}

/-- What may happen next.  `accept i`: the acceptor returns a client's stream, and the pool hands out `i` if it has an
idle stream processor; `acquired i`: the wait for one ends; `streamProcessor i a`: a step of an active one. -/
inductive Action (n : Nat) where
  | start
  | mainStart
  | accept (i : Fin n)
  | acquired (i : Fin n)
  | acceptNull
  | allStopped
  | streamProcessor (i : Fin n) (a : ServerStreamProcessor.Action)
  | stop
  | stopReturn

/-- `mrpc_server_create`. -/
def create (n : Nat) : Server n where
  streamProcessors := fun _ => ServerStreamProcessor.create
  active := fun _ => false
  activeCnt := 0
  streamProcessorsStopEvent := false
  stopEvent := false
  main := .stopped
  phase := .stopped

/-- `acquire_stream_processor`, once the pool handed out `i`, and `mrpc_server_stream_processor_start`. -/
def acquireStreamProcessor (s : Server n) (i : Fin n) : Option (Server n) :=
  (ServerStreamProcessor.start (s.streamProcessors i)).map fun p =>
    { s with
      streamProcessors := Function.update s.streamProcessors i p
      active := Function.update s.active i true
      activeCnt := s.activeCnt + 1
      streamProcessorsStopEvent := if s.activeCnt + 1 = 1 then false else s.streamProcessorsStopEvent
      main := .accepting }

/-- `release_stream_processor`. -/
def releaseStreamProcessor (s : Server n) (i : Fin n) : Server n :=
  { s with
    active := Function.update s.active i false
    activeCnt := s.activeCnt - 1
    streamProcessorsStopEvent := if s.activeCnt - 1 = 0 then true else s.streamProcessorsStopEvent }

/-- The loop of `stop_all_stream_processors`. -/
def stopAllStreamProcessors (s : Server n) : Server n :=
  { s with streamProcessors := fun i =>
    if s.active i then (s.streamProcessors i).stopAsync else s.streamProcessors i }

/-- A step of an active stream processor, which calls `release_stream_processor` when it has stopped; only the server
starts and stops it. -/
def stepStreamProcessor (s : Server n) (i : Fin n) (a : ServerStreamProcessor.Action) : Option (Server n) :=
  if s.active i = true ∧ a ≠ .start ∧ a ≠ .stopAsync then
    (ServerStreamProcessor.step (s.streamProcessors i) a).map fun p =>
      let s := { s with streamProcessors := Function.update s.streamProcessors i p }
      if p.reader = .stopped then s.releaseStreamProcessor i else s
  else none

def step (s : Server n) : Action n → Option (Server n)
  | .start => if s.phase = .stopped then some { s with phase := .running, main := .starting } else none
  | .mainStart =>
    if s.main = .starting then some { s with streamProcessorsStopEvent := true, main := .accepting } else none
  | .accept i =>
    if s.main = .accepting ∧ s.phase = .running then
      if s.active i then
        if ∀ i, s.active i then some { s with main := .acquiring } else none
      else s.acquireStreamProcessor i
    else none
  | .acquired i => if s.main = .acquiring ∧ ¬ s.active i then s.acquireStreamProcessor i else none
  | .acceptNull =>
    if s.main = .accepting ∧ s.phase = .stopping then
      some { s.stopAllStreamProcessors with main := .waitingProcessors }
    else none
  | .allStopped =>
    if s.main = .waitingProcessors ∧ s.streamProcessorsStopEvent then
      some { s with streamProcessorsStopEvent := false, stopEvent := true, main := .stopped }
    else none
  | .streamProcessor i a => s.stepStreamProcessor i a
  | .stop => if s.phase = .running then some { s with phase := .stopping } else none
  | .stopReturn =>
    if s.phase = .stopping ∧ s.stopEvent then some { s with stopEvent := false, phase := .stopped } else none

/-! ## What a step does -/

variable {s s' : Server n}

/-- The outcome of every step, with what has to hold before it. -/
inductive Outcome (s : Server n) : Action n → Server n → Prop where
  | start (hp : s.phase = .stopped) : Outcome s .start { s with phase := .running, main := .starting }
  | mainStart (hm : s.main = .starting) :
    Outcome s .mainStart { s with streamProcessorsStopEvent := true, main := .accepting }
  | accepted {i t} (hm : s.main = .accepting) (hp : s.phase = .running) (hi : s.active i = false)
    (ht : s.acquireStreamProcessor i = some t) : Outcome s (.accept i) t
  | waits {i} (hm : s.main = .accepting) (hp : s.phase = .running) (hall : ∀ i, s.active i = true) :
    Outcome s (.accept i) { s with main := .acquiring }
  | acquired {i t} (hm : s.main = .acquiring) (hi : s.active i = false) (ht : s.acquireStreamProcessor i = some t) :
    Outcome s (.acquired i) t
  | acceptNull (hm : s.main = .accepting) (hp : s.phase = .stopping) :
    Outcome s .acceptNull { s.stopAllStreamProcessors with main := .waitingProcessors }
  | allStopped (hm : s.main = .waitingProcessors) (he : s.streamProcessorsStopEvent = true) :
    Outcome s .allStopped { s with streamProcessorsStopEvent := false, stopEvent := true, main := .stopped }
  | moved {i a p} (hi : s.active i = true) (ha : a ≠ .start ∧ a ≠ .stopAsync)
    (hp : ServerStreamProcessor.step (s.streamProcessors i) a = some p) (hr : p.reader ≠ .stopped) :
    Outcome s (.streamProcessor i a) { s with streamProcessors := Function.update s.streamProcessors i p }
  | released {i a p} (hi : s.active i = true) (hp : ServerStreamProcessor.step (s.streamProcessors i) a = some p)
    (hr : p.reader = .stopped) : Outcome s (.streamProcessor i a)
      ({ s with streamProcessors := Function.update s.streamProcessors i p }.releaseStreamProcessor i)
  | stop (hp : s.phase = .running) : Outcome s .stop { s with phase := .stopping }
  | stopReturn (hp : s.phase = .stopping) (he : s.stopEvent = true) :
    Outcome s .stopReturn { s with stopEvent := false, phase := .stopped }

theorem outcome_of_step {a : Action n} (h : s.step a = some s') : Outcome s a s' := by
  cases a with
  | start =>
    obtain ⟨hp, h⟩ := Option.ite_none_right_eq_some.1 h
    cases h
    exact .start hp
  | mainStart =>
    obtain ⟨hm, h⟩ := Option.ite_none_right_eq_some.1 h
    cases h
    exact .mainStart hm
  | accept i =>
    obtain ⟨⟨hm, hp⟩, h⟩ := Option.ite_none_right_eq_some.1 h
    split at h
    · obtain ⟨hall, h⟩ := Option.ite_none_right_eq_some.1 h
      cases h
      exact .waits hm hp hall
    · rename_i hi
      exact .accepted hm hp (Bool.not_eq_true _ ▸ hi) h
  | acquired i =>
    obtain ⟨⟨hm, hi⟩, h⟩ := Option.ite_none_right_eq_some.1 h
    exact .acquired hm (Bool.not_eq_true _ ▸ hi) h
  | acceptNull =>
    obtain ⟨⟨hm, hp⟩, h⟩ := Option.ite_none_right_eq_some.1 h
    cases h
    exact .acceptNull hm hp
  | allStopped =>
    obtain ⟨⟨hm, he⟩, h⟩ := Option.ite_none_right_eq_some.1 h
    cases h
    exact .allStopped hm he
  | streamProcessor i a =>
    obtain ⟨⟨hi, ha⟩, h⟩ := Option.ite_none_right_eq_some.1 h
    obtain ⟨p, hp, h⟩ := Option.map_eq_some_iff.1 h
    dsimp only at h
    split at h
    · rename_i hr
      cases h
      exact .released hi hp hr
    · rename_i hr
      cases h
      exact .moved hi ha hp hr
  | stop =>
    obtain ⟨hp, h⟩ := Option.ite_none_right_eq_some.1 h
    cases h
    exact .stop hp
  | stopReturn =>
    obtain ⟨⟨hp, he⟩, h⟩ := Option.ite_none_right_eq_some.1 h
    cases h
    exact .stopReturn hp he

/-! ## What holds after every run -/

variable {i : Fin n}

theorem filter_update_true (active : Fin n → Bool) (i : Fin n) :
    (Finset.univ.filter fun j => Function.update active i true j = true)
      = insert i (Finset.univ.filter fun j => active j = true) := by
  ext j
  by_cases hj : j = i
  · subst hj
    simp
  · simp [hj]

theorem filter_update_false (active : Fin n → Bool) (i : Fin n) :
    (Finset.univ.filter fun j => Function.update active i false j = true)
      = (Finset.univ.filter fun j => active j = true).erase i := by
  ext j
  by_cases hj : j = i
  · subst hj
    simp
  · simp [hj]

/-- The active stream processors are counted, and none of them has stopped; the event of the last release is in step with
the counter while `main_server_func` runs, which has told all of them to stop when it waits for them. -/
structure Sound (s : Server n) : Prop where
  processors : ∀ i, ServerStreamProcessor.Sound (s.streamProcessors i)
  running : ∀ i, s.active i = true → (s.streamProcessors i).reader ≠ .stopped
  activeCnt : s.activeCnt = (Finset.univ.filter fun i => s.active i = true).card
  event : s.main ≠ .stopped → s.main ≠ .starting → (s.streamProcessorsStopEvent = true ↔ s.activeCnt = 0)
  idle : s.main = .stopped ∨ s.main = .starting → s.activeCnt = 0
  told : s.main = .waitingProcessors → ∀ i, s.active i = true → (s.streamProcessors i).state ≠ .working
  stopEvent : s.stopEvent = true → s.main = .stopped
  phase : s.phase = .stopped → s.main = .stopped ∧ s.stopEvent = false

theorem sound_create (n : Nat) : (create n).Sound := by
  refine ⟨fun _ => ServerStreamProcessor.sound_create, nofun, ?_, fun h => absurd rfl h, fun _ => rfl, nofun, nofun,
    fun _ => ⟨rfl, rfl⟩⟩
  simp [create]

theorem Sound.exists_active (h : s.Sound) (hcnt : s.activeCnt ≠ 0) : ∃ i, s.active i = true := by
  have hcard := h.activeCnt
  obtain ⟨i, hi⟩ := Finset.card_pos.1 (show 0 < (Finset.univ.filter fun i => s.active i = true).card by omega)
  exact ⟨i, (Finset.mem_filter.1 hi).2⟩

theorem Sound.activeCnt_pos (h : s.Sound) (hi : s.active i = true) : 0 < s.activeCnt := by
  rw [h.activeCnt]
  exact Finset.card_pos.2 ⟨i, Finset.mem_filter.2 ⟨Finset.mem_univ i, hi⟩⟩

theorem Sound.update (h : s.Sound) (i : Fin n) {p : StreamProcessor} (hp : ServerStreamProcessor.Sound p) (j : Fin n) :
    ServerStreamProcessor.Sound (Function.update s.streamProcessors i p j) := by
  by_cases hj : j = i
  · subst hj
    simpa using hp
  · simpa [hj] using h.processors j

/-- **A stream processor is acquired** by `main_server_func` in its loop. -/
theorem Sound.acquire (h : s.Sound) (hm : s.main = .accepting ∨ s.main = .acquiring) (hphase : s.phase ≠ .stopped)
    (hi : s.active i = false) (ht : s.acquireStreamProcessor i = some s') : s'.Sound := by
  obtain ⟨p, hp, rfl⟩ := Option.map_eq_some_iff.1 ht
  have hstart : ServerStreamProcessor.step (s.streamProcessors i) .start = some p := hp
  have hstop : s.stopEvent ≠ true := fun he => by
    have := h.stopEvent he
    rcases hm with hm | hm <;> rw [hm] at this <;> cases this
  have hev := h.event (by rcases hm with hm | hm <;> rw [hm] <;> simp) (by rcases hm with hm | hm <;> rw [hm] <;> simp)
  refine ⟨h.update i ((h.processors i).step hstart), fun j hj => ?_, ?_, fun _ _ => ?_, by simp, nofun,
    fun he => absurd he hstop, fun hp => absurd hp hphase⟩
  · by_cases hji : j = i
    · subst hji
      unfold ServerStreamProcessor.start at hp
      obtain ⟨-, hp⟩ := Option.ite_none_right_eq_some.1 hp
      cases hp
      simp
    · simp only [Function.update_of_ne hji] at hj ⊢
      exact h.running j hj
  · dsimp only
    rw [filter_update_true, Finset.card_insert_of_notMem (by simp [hi]), h.activeCnt]
  · dsimp only
    split
    · simp
    · rename_i hcnt
      rw [hev]
      omega

/-- **A stream processor moves.** -/
theorem Sound.move (h : s.Sound) {a : ServerStreamProcessor.Action} {p : StreamProcessor} (ha : a ≠ .start)
    (hp : ServerStreamProcessor.step (s.streamProcessors i) a = some p) (hr : p.reader ≠ .stopped) :
    { s with streamProcessors := Function.update s.streamProcessors i p }.Sound := by
  refine ⟨h.update i ((h.processors i).step hp), fun j hj => ?_, h.activeCnt, h.event, h.idle, fun hm j hj => ?_,
    h.stopEvent, h.phase⟩
  · by_cases hji : j = i
    · subst hji
      simpa using hr
    · simp only [Function.update_of_ne hji]
      exact h.running j hj
  · by_cases hji : j = i
    · subst hji
      simpa using ServerStreamProcessor.state_ne_working_step (h.processors j) (h.told hm j hj) ha hp
    · simp only [Function.update_of_ne hji]
      exact h.told hm j hj

/-- **A stream processor that has stopped is released.** -/
theorem Sound.release (h : s.Sound) {p : StreamProcessor} (hi : s.active i = true)
    (hp : ServerStreamProcessor.Sound p) :
    ({ s with streamProcessors := Function.update s.streamProcessors i p }.releaseStreamProcessor i).Sound := by
  have hpos := h.activeCnt_pos hi
  have hother : ∀ {j}, Function.update s.active i false j = true → j ≠ i ∧ s.active j = true := fun {j} hj => by
    by_cases hji : j = i
    · subst hji
      simp at hj
    · exact ⟨hji, by simpa [hji] using hj⟩
  refine ⟨h.update i hp, fun j hj => ?_, ?_, fun h1 h2 => ?_, fun hm => ?_, fun hm j hj => ?_, h.stopEvent, h.phase⟩
  · obtain ⟨hji, hj⟩ := hother hj
    simpa [releaseStreamProcessor, hji] using h.running j hj
  · show s.activeCnt - 1 = (Finset.univ.filter fun j => Function.update s.active i false j = true).card
    rw [filter_update_false, Finset.card_erase_of_mem (by simp [hi]), h.activeCnt]
  · have hev := h.event h1 h2
    simp only [releaseStreamProcessor]
    split
    · simp_all
    · rw [hev]
      omega
  · have := h.idle hm
    omega
  · obtain ⟨hji, hj⟩ := hother hj
    simpa [releaseStreamProcessor, hji] using h.told hm j hj

/-- **All active stream processors are told to stop.** -/
theorem Sound.stopAll (h : s.Sound) (hm : s.main = .accepting) (hphase : s.phase ≠ .stopped) :
    { s.stopAllStreamProcessors with main := .waitingProcessors }.Sound := by
  have hstop : s.stopEvent ≠ true := fun he => by
    have := h.stopEvent he
    rw [hm] at this
    cases this
  refine ⟨fun i => ?_, fun i hi => ?_, h.activeCnt, fun _ _ => ?_, by simp, fun _ i hi => ?_,
    fun he => absurd he hstop, fun hp => absurd hp hphase⟩
  · by_cases hi : s.active i = true
    · simp only [stopAllStreamProcessors, hi, if_true]
      have hst : (s.streamProcessors i).state ≠ .stopped := fun hst =>
        h.running i hi ((h.processors i).phased.quiet hst).1
      exact (h.processors i).step (a := .stopAsync) (if_neg hst)
    · simp only [stopAllStreamProcessors, hi]
      exact h.processors i
  · have hi : s.active i = true := hi
    simp only [stopAllStreamProcessors, hi, if_true]
    exact h.running i hi
  · exact h.event (by rw [hm]; simp) (by rw [hm]; simp)
  · have hi : s.active i = true := hi
    simp only [stopAllStreamProcessors, hi, if_true]
    exact StreamProcessor.stopAsync_ne_working _

theorem Sound.step {a : Action n} (h : s.Sound) (hs : s.step a = some s') : s'.Sound := by
  cases outcome_of_step hs with
  | start hp =>
    obtain ⟨hm, he⟩ := h.phase hp
    exact ⟨h.processors, h.running, h.activeCnt, fun _ hne => absurd rfl hne, fun _ => h.idle (Or.inl hm), nofun,
      fun ht => absurd (ht.symm.trans he) (by simp), nofun⟩
  | mainStart hm =>
    have hcnt := h.idle (Or.inr hm)
    have hstop : s.stopEvent ≠ true := fun he => by
      have := h.stopEvent he
      rw [hm] at this
      cases this
    exact ⟨h.processors, h.running, h.activeCnt, fun _ _ => ⟨fun _ => hcnt, fun _ => rfl⟩, by simp, nofun,
      fun he => absurd he hstop, fun hp => absurd (hm.symm.trans (h.phase hp).1) (by simp)⟩
  | accepted hm hp hi ht => exact h.acquire (Or.inl hm) (by rw [hp]; simp) hi ht
  | waits hm hp hall =>
    exact ⟨h.processors, h.running, h.activeCnt, fun _ _ => h.event (by rw [hm]; simp) (by rw [hm]; simp), by simp, nofun,
      fun he => absurd (hm.symm.trans (h.stopEvent he)) (by simp), fun hp' => absurd (hp.symm.trans hp') (by simp)⟩
  | acquired hm hi ht =>
    exact h.acquire (Or.inr hm) (fun hp => absurd (hm.symm.trans (h.phase hp).1) (by simp)) hi ht
  | acceptNull hm hp => exact h.stopAll hm (by rw [hp]; simp)
  | allStopped hm he =>
    have hcnt := (h.event (by rw [hm]; simp) (by rw [hm]; simp)).1 he
    exact ⟨h.processors, h.running, h.activeCnt, fun hne => absurd rfl hne, fun _ => hcnt, nofun, fun _ => rfl,
      fun hp => absurd (hm.symm.trans (h.phase hp).1) (by simp)⟩
  | moved hi ha hp hr => exact h.move ha.1 hp hr
  | released hi hp hr => exact h.release hi ((h.processors _).step hp)
  | stop hp => exact ⟨h.processors, h.running, h.activeCnt, h.event, h.idle, h.told, h.stopEvent, nofun⟩
  | stopReturn hp he =>
    exact ⟨h.processors, h.running, h.activeCnt, h.event, h.idle, h.told, nofun, fun _ => ⟨h.stopEvent he, rfl⟩⟩

theorem sound_of_exec (as : List (Action n)) (hrun : Run.exec step (create n) as = some s) : s.Sound :=
  Run.invariant (P := Sound) (fun _ _ _ h _ hs => h.step hs) as (sound_create n) (Run.meets_true _ _) hrun

/-! ## Stopping -/

/-- `main_server_func` waits for something that has not happened: a stream processor of the pool, or the end of the last
one. -/
def Blocked (s : Server n) : Prop :=
  (s.main = .acquiring ∧ ∀ i, s.active i = true) ∨ (s.main = .waitingProcessors ∧ s.streamProcessorsStopEvent = false)

/-- The stream processor serves a client, and was not told to stop. -/
def Serves (s : Server n) (i : Fin n) : Prop := s.active i = true ∧ (s.streamProcessors i).state = .working

/-- `mrpc_server_stop` waits for `main_server_func`, which waits, and no active stream processor was told to stop: the
end is left to the clients. -/
structure Stuck (s : Server n) : Prop where
  phase : s.phase = .stopping
  stopEvent : s.stopEvent = false
  blocked : s.Blocked
  working : ∀ i, s.active i = true → (s.streamProcessors i).state = .working

/-- The server is told to stop while `main_server_func` waits for a stream processor only if one of them is free or on
its way to stop. -/
def StopsFree (s : Server n) (a : Action n) : Prop :=
  a = .stop → s.phase = .running → s.main = .acquiring → ∃ i, ¬ s.Serves i

/-- Once the server is told to stop, the wait for a stream processor can end. -/
def Free (s : Server n) : Prop := s.phase = .stopping → s.main = .acquiring → ∃ i, ¬ s.Serves i

theorem Sound.not_stuck (h : s.Sound) (hf : s.Free) : ¬ s.Stuck := by
  rintro ⟨hphase, -, ⟨hm, hall⟩ | ⟨hm, he⟩, hworking⟩
  · obtain ⟨i, hi⟩ := hf hphase hm
    exact hi ⟨hall i, hworking i (hall i)⟩
  · have hcnt : s.activeCnt ≠ 0 := fun hcnt => by
      rw [(h.event (by rw [hm]; simp) (by rw [hm]; simp)).2 hcnt] at he
      cases he
    obtain ⟨i, hi⟩ := h.exists_active hcnt
    exact h.told hm i hi (hworking i hi)

theorem acquireStreamProcessor_main (ht : s.acquireStreamProcessor i = some s') : s'.main = .accepting := by
  obtain ⟨p, -, rfl⟩ := Option.map_eq_some_iff.1 ht
  rfl

/-- **A stream processor that serves nobody goes on so** until the pool hands it out. -/
theorem not_serves_move {j : Fin n} (h : s.Sound) {a : ServerStreamProcessor.Action} {p : StreamProcessor} (ha : a ≠ .start)
    (hp : ServerStreamProcessor.step (s.streamProcessors i) a = some p) (hj : ¬ s.Serves j) :
    ¬ { s with streamProcessors := Function.update s.streamProcessors i p }.Serves j := by
  rintro ⟨hactive, hworking⟩
  dsimp only at hworking
  by_cases hji : j = i
  · subst hji
    rw [Function.update_self] at hworking
    exact ServerStreamProcessor.state_ne_working_step (h.processors j) (fun hw => hj ⟨hactive, hw⟩) ha hp hworking
  · rw [Function.update_of_ne hji] at hworking
    exact hj ⟨hactive, hworking⟩

theorem Free.step {a : Action n} (hf : s.Free) (h : s.Sound) (hC : s.StopsFree a) (hs : s.step a = some s') : s'.Free := by
  intro hphase hm
  cases outcome_of_step hs with
  | start | mainStart | acceptNull | allStopped => cases hm
  | accepted _ _ _ ht | acquired _ _ ht =>
    rw [acquireStreamProcessor_main ht] at hm
    cases hm
  | waits _ hp => exact absurd (hp.symm.trans hphase) (by simp)
  | moved hi ha hp hr =>
    obtain ⟨j, hj⟩ := hf hphase hm
    exact ⟨j, not_serves_move h ha.1 hp hj⟩
  | @released i _ _ hi hp hr => exact ⟨i, fun hi => by simp [Serves, releaseStreamProcessor] at hi⟩
  | stop hp => exact hC rfl hp hm
  | stopReturn => cases hphase

/-- **Told to stop at the wrong moment, the server is stuck.** -/
theorem Sound.stuck_of_stop (h : s.Sound) (hm : s.main = .acquiring) (hall : ∀ i, s.Serves i) :
    { s with phase := .stopping }.Stuck := by
  have hstop : s.stopEvent = false := by
    by_contra hne
    have := h.stopEvent (Bool.eq_true_of_not_eq_false hne)
    rw [hm] at this
    cases this
  exact ⟨rfl, hstop, Or.inl ⟨hm, fun i => (hall i).1⟩, fun i _ => (hall i).2⟩

/-- **The stop of a server.**  In a run no state is stuck if and only if, whenever the server is told to stop, its main
fiber does not wait for a stream processor while all of them serve a client. -/
theorem not_stuck_iff (n : Nat) (as : List (Action n)) :
    Run.Meets step StopsFree (create n) as ↔
      ∀ (before : List (Action n)) (t : Server n), before <+: as → Run.exec step (create n) before = some t → ¬ t.Stuck := by
  constructor
  · rintro hmeets before t ⟨rest, rfl⟩ hrun
    have hbefore := (Run.meets_append before hrun hmeets).1
    have ht : t.Sound ∧ t.Free := Run.invariant (P := fun s => s.Sound ∧ s.Free)
      (fun _ _ _ h hC hs => ⟨h.1.step hs, h.2.step h.1 hC hs⟩) before ⟨sound_create n, nofun⟩ hbefore hrun
    exact ht.1.not_stuck ht.2
  · intro h
    refine (Run.meets_iff as).2 fun before a t hle hrun hstop hphase hm => ?_
    subst hstop
    by_contra hall
    push Not at hall
    have hstep : t.step .stop = some { t with phase := .stopping } := if_pos hphase
    refine h (before ++ [.stop]) _ hle ?_ ((sound_of_exec before hrun).stuck_of_stop hm hall)
    rw [Run.exec_append_of [.stop] before hrun, Run.exec_cons_of [] hstep]
    rfl

/-- Two clients connect to a server that serves one at a time, and the server is told to stop. -/
def stopAtLimit : List (Action 1) := [.start, .mainStart, .accept 0, .accept 0, .stop]

/-- **A server at its limit cannot be stopped** while one more client waits to be served. -/
theorem stuck_stopAtLimit : ¬ ∀ (n : Nat) (as : List (Action n)) (s : Server n), 0 < n →
    Run.exec step (create n) as = some s → ¬ s.Stuck := by
  intro h
  refine h 1 stopAtLimit _ (by decide) rfl ⟨rfl, rfl, Or.inl ⟨rfl, fun i => ?_⟩, fun i _ => ?_⟩
  · rw [Subsingleton.elim i 0]
    rfl
  · rw [Subsingleton.elim i 0]
    rfl

end Server
end Mrpc
