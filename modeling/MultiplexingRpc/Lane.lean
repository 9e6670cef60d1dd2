import MultiplexingRpc.StreamProcessor
/-!
# Lane — one request id of a connection

What the two ends of a connection have of one request id, with the packets between them: calls follow each other on the
client, and each starts a handler on the server.  Nothing here knows of pools, queues or fibers; `Move` says what one end
may do on its own, `Step` adds the transport and the two readers.  The calls of an id, and the handlers started under it,
are numbered, and a log is kept of each.
-/
namespace Mrpc

/-! ## Logs -/

/-- What one end did in one exchange: the bytes given to its writes, the bytes of the packets that came for it, what its
reads returned, and whether it flushed. -/
structure Log where
  wrote : List UInt8
  arrived : List UInt8
  reads : List (Option (List UInt8))
  flushed : Bool

inductive Deed where
  | nothing
  | wrote (bytes : List UInt8)
  | flushed
  | arrived (bytes : List UInt8)
  | returned (result : Option (List UInt8))

namespace Log

def empty : Log := ⟨[], [], [], false⟩

/-- The bytes of all successful reads. -/
def delivered (l : Log) : List UInt8 := l.reads.reduceOption.flatten

/-- The bytes of the reads before the first failed one. -/
def received (l : Log) : List UInt8 := (l.reads.takeWhile Option.isSome).reduceOption.flatten

def note (l : Log) : Deed → Log
  | .nothing => l
  | .wrote bytes => { l with wrote := l.wrote ++ bytes }
  | .flushed => { l with flushed := true }
  | .arrived bytes => { l with arrived := l.arrived ++ bytes }
  | .returned result => { l with reads := l.reads ++ [result] }

end Log

/-- What reads took from what came: the bytes they returned, and the bytes lost in those that failed. -/
inductive Taken : List (Option (List UInt8)) → List UInt8 → Prop where
  | nil : Taken [] []
  | returned {reads bytes} (h : Taken reads bytes) (b : List UInt8) : Taken (reads ++ [some b]) (bytes ++ b)
  | failed {reads bytes} (h : Taken reads bytes) (lost : List UInt8) : Taken (reads ++ [none]) (bytes ++ lost)

namespace Taken

variable {reads : List (Option (List UInt8))} {bytes : List UInt8}

theorem takeWhile_append_of_not_all {α : Type} {p : α → Bool} {l : List α} (h : l.all p = false) (l' : List α) :
    (l ++ l').takeWhile p = l.takeWhile p := by
  induction l with
  | nil => cases h
  | cons a l ih =>
    cases hp : p a with
    | false => simp [hp]
    | true =>
      rw [List.all_cons, hp, Bool.true_and] at h
      simp [hp, ih h]

theorem delivered (h : Taken reads bytes) : reads.reduceOption.flatten.Sublist bytes := by
  induction h with
  | nil => exact List.Sublist.refl _
  | returned _ b ih =>
    rw [List.reduceOption_append, List.flatten_append, List.reduceOption_singleton]
    exact ih.append (by simp)
  | failed _ lost ih =>
    rw [List.reduceOption_append, List.flatten_append]
    simpa [List.reduceOption] using ih.trans (List.sublist_append_left _ lost)

/-- Nothing is lost before the first failed read. -/
theorem received_aux (h : Taken reads bytes) : (reads.takeWhile Option.isSome).reduceOption.flatten <+: bytes ∧
    (reads.all Option.isSome = true → (reads.takeWhile Option.isSome).reduceOption.flatten = bytes) := by
  induction h with
  | nil => exact ⟨List.prefix_refl _, fun _ => rfl⟩
  | @returned reads bytes _ b ih =>
    cases hall : reads.all Option.isSome with
    | true =>
      have heq : ((reads ++ [some b]).takeWhile Option.isSome).reduceOption.flatten = bytes ++ b := by
        have hih := ih.2 hall
        rw [List.takeWhile_eq_self_iff.2 (List.all_eq_true.1 hall)] at hih
        rw [List.takeWhile_append_of_pos (List.all_eq_true.1 hall), ← hih]
        simp [List.reduceOption_append, List.reduceOption_singleton]
      exact ⟨heq ▸ List.prefix_refl _, fun _ => heq⟩
    | false =>
      rw [takeWhile_append_of_not_all hall, List.all_append, hall]
      exact ⟨ih.1.trans (List.prefix_append _ _), nofun⟩
  | @failed reads bytes _ lost ih =>
    have heq : (reads ++ [none]).takeWhile Option.isSome = reads.takeWhile Option.isSome := by
      cases hall : reads.all Option.isSome with
      | true =>
        rw [List.takeWhile_append_of_pos (List.all_eq_true.1 hall), List.takeWhile_eq_self_iff.2 (List.all_eq_true.1 hall)]
        simp
      | false => exact takeWhile_append_of_not_all hall _
    rw [heq]
    exact ⟨ih.1.trans (List.prefix_append _ _), by simp⟩

theorem received (h : Taken reads bytes) : (reads.takeWhile Option.isSome).reduceOption.flatten <+: bytes := h.received_aux.1

end Taken

/-- The bytes a deed writes, and the bytes that arrive by it. -/
def Deed.bytes : Deed → List UInt8
  | .wrote bytes => bytes
  | _ => []

def Deed.arriving : Deed → List UInt8
  | .arrived bytes => bytes
  | _ => []

@[simp] theorem Log.wrote_note (l : Log) (d : Deed) : (l.note d).wrote = l.wrote ++ d.bytes := by
  cases d <;> simp [Log.note, Deed.bytes]

@[simp] theorem Log.arrived_note (l : Log) (d : Deed) : (l.note d).arrived = l.arrived ++ d.arriving := by
  cases d <;> simp [Log.note, Deed.arriving]

/-- The log of exchange `n` after a deed. -/
def note (logs : Nat → Log) (n : Nat) (d : Deed) : Nat → Log := Function.update logs n ((logs n).note d)

/-! ## The ends -/

/-- How far a message got out: no packet of it, some, or all. -/
inductive Stage where
  | unsent
  | sent
  | done
  deriving DecidableEq, Repr

/-- What one end has of one request id.  `inbound` came and was not yet returned by a read, `pending` was written and is
in no packet handed to the writer, `outbound` are the packets the writer has yet to send; `listening` and `writing` say
that the reader and the writer still serve the connection. -/
structure End where
  active : Bool
  listening : Bool
  writing : Bool
  inbound : List UInt8
  pending : List UInt8
  stage : Stage
  outbound : List Frame

namespace End

def begin_ (e : End) (inbound : List UInt8) : End :=
  { e with active := true, inbound := inbound, pending := [], stage := .unsent }

def finish (e : End) : End := { e with active := false, inbound := [], pending := [], stage := .unsent }

/-- The packets for the writer, with one more; a writer that has given up drops it. -/
def emit (e : End) (f : Frame) : List Frame := if e.writing then e.outbound ++ [f] else e.outbound

/-- What one end may do by itself. -/
inductive Move (e : End) : Deed → End → Prop where
  | stay : Move e .nothing e
  | deaf : Move e .nothing { e with listening := false }
  | mute : Move e .nothing { e with writing := false, outbound := [] }
  | write {d bytes} (hd : d = .wrote bytes ∨ (d = .nothing ∧ bytes = [])) (ha : e.active = true) (hs : e.stage ≠ .done) :
    Move e d { e with pending := e.pending ++ bytes }
  | put {d bytes pending f} (hd : d = .wrote bytes ∨ (d = .nothing ∧ bytes = [])) (ha : e.active = true)
    (hs : e.stage ≠ .done) (hbytes : f.body ++ pending = e.pending ++ bytes)
    (hfirst : f.type.isFirst = true ↔ e.stage = .unsent) (hbody : f.body ≠ []) :
    Move e d { e with pending := pending, stage := .sent, outbound := e.emit f }
  | flush {f} (ha : e.active = true) (hs : e.stage ≠ .done) (hbytes : f.body = e.pending)
    (hfirst : f.type.isFirst = true ↔ e.stage = .unsent) (hbody : e.stage = .sent → f.body ≠ []) :
    Move e .flushed { e with pending := [], stage := .done, outbound := e.emit f }
  | returned {b inbound} (ha : e.active = true) (h : e.inbound = b ++ inbound) :
    Move e (.returned (some b)) { e with inbound := inbound }
  | failed {lost inbound} (ha : e.active = true) (h : e.inbound = lost ++ inbound) :
    Move e (.returned none) { e with inbound := inbound }

end End

/-! ## The lane -/

/-- One request id of a connection; `working` is the client's `STATE_WORKING`. -/
structure Lane where
  client : End
  server : End
  toServer : List Frame
  toClient : List Frame
  calls : Nat → Log
  callCnt : Nat
  handlers : Nat → Log
  handlerCnt : Nat
  working : Bool

namespace Lane

/-- The call has read the whole response of its handler, which is not empty. -/
def Answered (k : Lane) : Prop :=
  (k.handlers (k.callCnt - 1)).flushed = true ∧ (k.handlers (k.callCnt - 1)).wrote ≠ [] ∧
    (k.calls (k.callCnt - 1)).delivered = (k.handlers (k.callCnt - 1)).wrote

/-- The handler has read the whole request of its call. -/
def Asked (k : Lane) : Prop :=
  (k.calls (k.handlerCnt - 1)).flushed = true ∧
    (k.handlers (k.handlerCnt - 1)).delivered = (k.calls (k.handlerCnt - 1)).wrote

inductive Act where
  | client
  | server
  | serverFinish

/-- What may happen on a lane.  A call ends when it has been answered or the connection is given up; a handler writes
when it has been asked, and does not flush an empty response. -/
inductive Step (k : Lane) : Act → Lane → Prop where
  | client {d e w} (hm : k.client.Move d e) (hw : w = true → k.working = true) (hl : w = true → e.listening = true) :
    Step k .client { k with client := e, calls := note k.calls (k.callCnt - 1) d, working := w }
  | clientSend {f rest} (h : k.client.outbound = f :: rest) :
    Step k .client { k with client := { k.client with outbound := rest }, toServer := k.toServer ++ [f] }
  | callBegin (hw : k.working = true) (ha : k.client.active = false) :
    Step k .client { k with client := k.client.begin_ [], callCnt := k.callCnt + 1 }
  | callFinish (ha : k.client.active = true) (hg : k.working = false ∨ k.Answered) :
    Step k .client { k with client := k.client.finish }
  | clientReceive {f rest} (h : k.toClient = f :: rest) (hl : k.client.listening = true) (ha : k.client.active = true) :
    Step k .client { k with
      client := { k.client with inbound := k.client.inbound ++ f.body }
      toClient := rest
      calls := note k.calls (k.callCnt - 1) (.arrived f.body) }
  | clientReject {f rest} (h : k.toClient = f :: rest) :
    Step k .client { k with client := { k.client with listening := false }, toClient := rest, working := false }
  | server {d e} (hm : k.server.Move d e) (hw : ∀ bytes, d = .wrote bytes → k.Asked)
    (hf : d = .flushed → (k.handlers (k.handlerCnt - 1)).wrote ≠ []) :
    Step k .server { k with server := e, handlers := note k.handlers (k.handlerCnt - 1) d }
  | serverSend {f rest} (h : k.server.outbound = f :: rest) :
    Step k .server { k with server := { k.server with outbound := rest }, toClient := k.toClient ++ [f] }
  | handlerBegin {f rest} (h : k.toServer = f :: rest) (hl : k.server.listening = true) (hf : f.type.isFirst = true)
    (ha : k.server.active = false) :
    Step k .server { k with
      server := k.server.begin_ f.body
      toServer := rest
      handlers := note k.handlers k.handlerCnt (.arrived f.body)
      handlerCnt := k.handlerCnt + 1 }
  | serverReceive {f rest} (h : k.toServer = f :: rest) (hl : k.server.listening = true) (hf : f.type.isFirst = false)
    (ha : k.server.active = true) :
    Step k .server { k with
      server := { k.server with inbound := k.server.inbound ++ f.body }
      toServer := rest
      handlers := note k.handlers (k.handlerCnt - 1) (.arrived f.body) }
  | serverReject {f rest} (h : k.toServer = f :: rest) :
    Step k .server { k with server := { k.server with listening := false }, toServer := rest }
  | handlerFinish (ha : k.server.active = true) : Step k .serverFinish { k with server := k.server.finish }

/-! ## Messages on their way -/

end Lane

def bodies (fs : List Frame) : List UInt8 := fs.flatMap Frame.body

@[simp] theorem bodies_nil : bodies [] = [] := rfl

@[simp] theorem bodies_cons (f : Frame) (fs : List Frame) : bodies (f :: fs) = f.body ++ bodies fs := rfl

@[simp] theorem bodies_append (fs gs : List Frame) : bodies (fs ++ gs) = bodies fs ++ bodies gs := by simp [bodies]

theorem bodies_mono {fs gs : List Frame} (h : fs <+: gs) : bodies fs <+: bodies gs := by
  obtain ⟨hs, rfl⟩ := h
  rw [bodies_append]
  exact List.prefix_append _ _

theorem eq_nil_of_bodies {fs : List Frame} (h : bodies fs = []) (hne : ∀ f ∈ fs, f.body ≠ []) : fs = [] := by
  cases fs with
  | nil => rfl
  | cons f fs =>
    rw [bodies_cons, List.append_eq_nil_iff] at h
    exact absurd h.1 (hne f List.mem_cons_self)

/-- A message of which `arrived` is there, `fs` is under way and `pending` is yet to go; while the sender is `live`, that
is all of it. -/
structure Flows (arrived : List UInt8) (fs : List Frame) (live : Prop) (pending wrote : List UInt8) : Prop where
  le : arrived ++ bodies fs <+: wrote
  eq : live → arrived ++ bodies fs ++ pending = wrote

namespace Flows

variable {arrived pending pending' wrote bytes : List UInt8} {fs : List Frame} {f : Frame} {live live' : Prop}

theorem mono (h : Flows arrived fs live pending wrote) (hl : live' → live) : Flows arrived fs live' pending wrote :=
  ⟨h.le, fun hl' => h.eq (hl hl')⟩

theorem write (h : Flows arrived fs live pending wrote) (bytes : List UInt8) :
    Flows arrived fs live (pending ++ bytes) (wrote ++ bytes) :=
  ⟨h.le.trans (List.prefix_append _ _), fun hl => by rw [← h.eq hl]; simp⟩

theorem emit (h : Flows arrived fs live pending wrote) (hl : live) (hb : f.body ++ pending' = pending ++ bytes) :
    Flows arrived (fs ++ [f]) live pending' (wrote ++ bytes) := by
  have heq : arrived ++ bodies (fs ++ [f]) ++ pending' = wrote ++ bytes := by
    rw [← h.eq hl, bodies_append, bodies_cons, bodies_nil, List.append_nil]
    calc _ = arrived ++ bodies fs ++ (f.body ++ pending') := by simp
      _ = _ := by rw [hb]; simp
  exact ⟨⟨pending', heq⟩, fun _ => heq⟩

theorem arrive (h : Flows arrived (f :: fs) live pending wrote) : Flows (arrived ++ f.body) fs live pending wrote := by
  obtain ⟨hle, heq⟩ := h
  rw [bodies_cons, ← List.append_assoc] at hle heq
  exact ⟨hle, heq⟩

/-- **A message cut short** is still the beginning of what was written. -/
theorem short (h : Flows arrived fs live pending wrote) {gs : List Frame} (hg : gs <+: fs) (hl : ¬ live')
    (pending' : List UInt8) : Flows arrived gs live' pending' wrote :=
  ⟨((List.prefix_append_right_inj arrived).2 (bodies_mono hg)).trans h.le, fun h => absurd h hl⟩

/-- What is written after that does not matter. -/
theorem cut (h : Flows arrived fs live pending wrote) (hl : ¬ live') (bytes pending' : List UInt8) :
    Flows arrived fs live' pending' (wrote ++ bytes) :=
  ⟨h.le.trans (List.prefix_append _ _), fun h => absurd h hl⟩

theorem arrived_le (h : Flows arrived fs live pending wrote) : arrived <+: wrote := (List.prefix_append _ _).trans h.le

end Flows

namespace Lane

/-- The packets of requests on their way: `T` to the handler there is, `M` for the one that is to be started. -/
structure Request (k : Lane) (T M : List Frame) : Prop where
  line : k.toServer ++ k.client.outbound = T ++ M
  later : ∀ f ∈ T, f.type.isFirst = false
  first : ∀ f rest, M = f :: rest → f.type.isFirst = true ∧ ∀ g ∈ rest, g.type.isFirst = false
  none : k.handlerCnt = 0 → T = []
  current : 0 < k.handlerCnt → Flows (k.handlers (k.handlerCnt - 1)).arrived T
    (k.handlerCnt = k.callCnt ∧ k.client.active = true ∧ k.client.writing = true) k.client.pending
    (k.calls (k.handlerCnt - 1)).wrote
  next : Flows [] M (k.handlerCnt < k.callCnt ∧ k.client.active = true ∧ k.client.writing = true) k.client.pending
    (k.calls k.handlerCnt).wrote
  started : k.handlerCnt = k.callCnt → M = []
  stage : k.client.active = true → k.client.writing = true →
    (k.client.stage = .unsent ↔ k.handlerCnt < k.callCnt ∧ M = [])

/-- The packets of responses on their way: they are of the handler of the call there is. -/
structure Response (k : Lane) : Prop where
  bodies : ∀ f ∈ k.toClient ++ k.server.outbound, f.body ≠ []
  current : k.client.active = true → k.handlerCnt = k.callCnt → Flows (k.calls (k.callCnt - 1)).arrived
    (k.toClient ++ k.server.outbound) (k.server.active = true ∧ k.server.writing = true) k.server.pending
    (k.handlers (k.callCnt - 1)).wrote
  quiet : (k.client.active = true ∧ k.handlerCnt < k.callCnt) ∨ (k.client.active = false ∧ k.working = true) →
    k.toClient ++ k.server.outbound = [] ∧ (k.server.active = true → k.server.stage = .done)
  answered : k.client.active = false → k.working = true → k.handlerCnt = k.callCnt

/-- What the log of an end has to do with what it holds. -/
structure Kept (e : End) (logs : Nat → Log) (cnt : Nat) : Prop where
  pos : e.active = true → 0 < cnt
  empty : ∀ n, cnt ≤ n → logs n = Log.empty
  taken : ∀ n, ∃ bytes, Taken (logs n).reads bytes ∧ bytes <+: (logs n).arrived
  inbound : e.active = true → ∃ bytes, Taken (logs (cnt - 1)).reads bytes ∧ bytes ++ e.inbound = (logs (cnt - 1)).arrived
  unsent : e.active = true → e.stage = .unsent → e.pending = (logs (cnt - 1)).wrote
  flushed : e.active = true → (logs (cnt - 1)).flushed = true → e.stage = .done
  muted : e.writing = false → e.outbound = []

/-- What holds of a lane after every run. -/
structure Inv (k : Lane) : Prop where
  cnt : k.handlerCnt ≤ k.callCnt ∧ k.callCnt ≤ k.handlerCnt + 1
  calls : Kept k.client k.calls k.callCnt
  handlers : Kept k.server k.handlers k.handlerCnt
  working : k.working = true → k.client.listening = true
  requests : ∀ n, (k.handlers n).arrived <+: (k.calls n).wrote
  responses : ∀ n, (k.calls n).arrived <+: (k.handlers n).wrote
  request : k.server.listening = true → ∃ T M, Request k T M
  response : k.client.listening = true → Response k

end Lane

/-! ## Logs are kept -/

theorem note_nothing (logs : Nat → Log) (n : Nat) : note logs n .nothing = logs := Function.update_eq_self n logs

theorem note_arrived_nil (logs : Nat → Log) (n : Nat) : note logs n (.arrived []) = logs := by
  unfold note
  simp only [Log.note, List.append_nil]
  exact Function.update_eq_self n logs

theorem note_self (logs : Nat → Log) (n : Nat) (d : Deed) : note logs n d n = (logs n).note d := Function.update_self ..

theorem note_of_ne {logs : Nat → Log} {n i : Nat} (h : i ≠ n) (d : Deed) : note logs n d i = logs i :=
  Function.update_of_ne h ..

/-- **What one entry of the log keeps, all entries keep.** -/
theorem note_forall {logs : Nat → Log} {n : Nat} {d : Deed} {P : Nat → Log → Prop} (h : ∀ i, P i (logs i))
    (hn : P n ((logs n).note d)) (i : Nat) : P i (note logs n d i) := by
  by_cases hi : i = n
  · subst hi
    rw [note_self]
    exact hn
  · rw [note_of_ne hi]
    exact h i

theorem End.Move.active {e e' : End} {d : Deed} (hm : e.Move d e') : e'.active = e.active := by cases hm <;> rfl

theorem End.Move.arriving {e e' : End} {d : Deed} (hm : e.Move d e') : d.arriving = [] := by
  cases hm with
  | write hd | put hd => obtain rfl | ⟨rfl, -⟩ := hd <;> rfl
  | _ => rfl

namespace Lane.Kept

variable {e e' : End} {logs : Nat → Log} {cnt : Nat} {d : Deed}

/-- The end changed only in what it has to send, and whether it does. -/
theorem of_eq (h : Kept e logs cnt) (ha : e'.active = e.active) (hi : e'.inbound = e.inbound)
    (hp : e'.pending = e.pending) (hs : e'.stage = e.stage) (hm : e'.writing = false → e'.outbound = []) :
    Kept e' logs cnt := by
  refine ⟨fun hact => h.pos (ha ▸ hact), h.empty, h.taken, fun hact => ?_, fun hact hst => ?_, fun hact hf => ?_, hm⟩
  · rw [hi]
    exact h.inbound (ha ▸ hact)
  · rw [hp]
    exact h.unsent (ha ▸ hact) (hs ▸ hst)
  · rw [hs]
    exact h.flushed (ha ▸ hact) hf

theorem muted_emit (h : Kept e logs cnt) {f : Frame} (hw : e.writing = false) : e.emit f = [] := by
  rw [End.emit, hw]
  exact h.muted hw

/-- The log entry of an active end is below the count, so it can be noted. -/
theorem empty_note (h : Kept e logs cnt) (ha : e.active = true) (n : Nat) (hn : cnt ≤ n) :
    note logs (cnt - 1) d n = Log.empty := by
  have := h.pos ha
  rw [note_of_ne (by omega)]
  exact h.empty n hn

/-- **Writing leaves the reading side of the log alone.** -/
theorem written (h : Kept e logs cnt) (ha : e.active = true) (hi : e'.inbound = e.inbound)
    (hd : ∀ l : Log, (l.note d).reads = l.reads ∧ (l.note d).arrived = l.arrived)
    (hu : e'.stage = .unsent → e'.pending = (logs (cnt - 1)).wrote ++ d.bytes)
    (hf : ((logs (cnt - 1)).note d).flushed = true → e'.stage = .done) (hm : e'.writing = false → e'.outbound = []) :
    Kept e' (note logs (cnt - 1) d) cnt := by
  refine ⟨fun _ => h.pos ha, h.empty_note ha, ?_, fun _ => ?_, fun _ hst => ?_, fun _ hfl => ?_, hm⟩
  · refine note_forall (P := fun _ l => ∃ bytes, Taken l.reads bytes ∧ bytes <+: l.arrived) h.taken ?_
    rw [(hd _).1, (hd _).2]
    exact h.taken _
  · rw [note_self, (hd _).1, (hd _).2, hi]
    exact h.inbound ha
  · rw [note_self, Log.wrote_note]
    exact hu hst
  · rw [note_self] at hfl
    exact hf hfl

/-- **Reading leaves the writing side of the log alone.** -/
theorem read (h : Kept e logs cnt) (ha : e.active = true) {result : Option (List UInt8)} {bytes inbound : List UInt8}
    (htaken : Taken ((logs (cnt - 1)).reads ++ [result]) bytes) (heq : bytes ++ inbound = (logs (cnt - 1)).arrived) :
    Kept { e with inbound := inbound } (note logs (cnt - 1) (.returned result)) cnt := by
  refine ⟨h.pos, h.empty_note ha, ?_, fun _ => ?_, ?_, ?_, h.muted⟩
  · exact note_forall (P := fun _ l => ∃ bytes, Taken l.reads bytes ∧ bytes <+: l.arrived) h.taken
      ⟨bytes, htaken, inbound, heq⟩
  · rw [note_self]
    exact ⟨bytes, htaken, heq⟩
  · rw [note_self]
    exact h.unsent
  · rw [note_self]
    exact h.flushed

theorem move (h : Kept e logs cnt) (hm : e.Move d e') : Kept e' (note logs (cnt - 1) d) cnt := by
  cases hm with
  | stay => rwa [note_nothing]
  | deaf => rw [note_nothing]; exact h.of_eq rfl rfl rfl rfl h.muted
  | mute => rw [note_nothing]; exact h.of_eq rfl rfl rfl rfl (fun _ => rfl)
  | @write _ bytes hd ha hs =>
    obtain rfl | ⟨rfl, rfl⟩ := hd
    · refine h.written ha rfl (fun l => ⟨rfl, rfl⟩) (fun hst => ?_) (h.flushed ha) h.muted
      rw [h.unsent ha hst]
      rfl
    · rw [note_nothing]
      exact h.of_eq rfl rfl (List.append_nil _) rfl h.muted
  | @put _ bytes pending f hd ha hs hbytes hfirst hbody =>
    refine h.written ha rfl (fun l => ?_) (fun hst => nomatch hst) (fun hfl => ?_) h.muted_emit
    · obtain rfl | ⟨rfl, rfl⟩ := hd
      · exact ⟨rfl, rfl⟩
      · exact ⟨rfl, rfl⟩
    · have hfl' : (logs (cnt - 1)).flushed = true := by
        obtain rfl | ⟨rfl, rfl⟩ := hd
        · exact hfl
        · exact hfl
      exact absurd (h.flushed ha hfl') hs
  | flush ha hs hbytes hfirst hbody =>
    exact h.written ha rfl (fun l => ⟨rfl, rfl⟩) (fun hst => nomatch hst) (fun _ => rfl) h.muted_emit
  | @returned b inbound ha hb =>
    obtain ⟨bytes, htaken, heq⟩ := h.inbound ha
    rw [hb, ← List.append_assoc] at heq
    exact h.read ha (htaken.returned b) heq
  | @failed lost inbound ha hb =>
    obtain ⟨bytes, htaken, heq⟩ := h.inbound ha
    rw [hb, ← List.append_assoc] at heq
    exact h.read ha (htaken.failed lost) heq

theorem arrive (h : Kept e logs cnt) (ha : e.active = true) (b : List UInt8) :
    Kept { e with inbound := e.inbound ++ b } (note logs (cnt - 1) (.arrived b)) cnt := by
  refine ⟨h.pos, h.empty_note ha, ?_, fun _ => ?_, ?_, ?_, h.muted⟩
  · refine note_forall (P := fun _ l => ∃ bytes, Taken l.reads bytes ∧ bytes <+: l.arrived) h.taken ?_
    obtain ⟨bytes, htaken, hle⟩ := h.taken (cnt - 1)
    exact ⟨bytes, htaken, hle.trans (List.prefix_append _ _)⟩
  · obtain ⟨bytes, htaken, heq⟩ := h.inbound ha
    refine ⟨bytes, ?_, ?_⟩
    · rw [note_self]
      exact htaken
    · rw [note_self, Log.arrived_note, ← heq]
      simp [Deed.arriving]
  · rw [note_self]
    exact h.unsent
  · rw [note_self]
    exact h.flushed

/-- **A new exchange starts with an empty log.** -/
theorem begin_ (h : Kept e logs cnt) (b : List UInt8) :
    Kept (e.begin_ b) (note logs cnt (.arrived b)) (cnt + 1) := by
  have hlog : note logs cnt (.arrived b) cnt = ⟨[], b, [], false⟩ := by
    rw [note_self, h.empty cnt (Nat.le_refl _)]
    rfl
  refine ⟨fun _ => Nat.succ_pos _, fun n hn => ?_, ?_, fun _ => ⟨[], ?_⟩, fun _ _ => ?_, fun _ hf => ?_, h.muted⟩
  · rw [note_of_ne (by omega)]
    exact h.empty n (by omega)
  · refine note_forall (P := fun _ l => ∃ bytes, Taken l.reads bytes ∧ bytes <+: l.arrived) h.taken ?_
    rw [h.empty cnt (Nat.le_refl _)]
    exact ⟨[], .nil, List.nil_prefix⟩
  · rw [Nat.add_sub_cancel, hlog]
    exact ⟨.nil, rfl⟩
  · rw [Nat.add_sub_cancel, hlog]
    rfl
  · rw [Nat.add_sub_cancel, hlog] at hf
    cases hf

theorem finish (h : Kept e logs cnt) : Kept e.finish logs cnt :=
  ⟨nofun, h.empty, h.taken, nofun, nofun, nofun, h.muted⟩

theorem received (h : Kept e logs cnt) (n : Nat) : (logs n).received <+: (logs n).arrived := by
  obtain ⟨bytes, htaken, hle⟩ := h.taken n
  exact htaken.received.trans hle

theorem delivered (h : Kept e logs cnt) (n : Nat) : (logs n).delivered.Sublist (logs n).arrived := by
  obtain ⟨bytes, htaken, hle⟩ := h.taken n
  exact htaken.delivered.trans hle.sublist

end Lane.Kept

/-! ## Requests on their way -/

namespace Lane

variable {k k' : Lane} {T M : List Frame}

namespace Request

/-- Nothing changed that concerns the requests on their way, except that a call may have gone. -/
theorem congr (h : Request k T M) (hline : k'.toServer ++ k'.client.outbound = k.toServer ++ k.client.outbound)
    (hh : k'.handlerCnt = k.handlerCnt) (hc : k'.callCnt = k.callCnt)
    (harrived : ∀ n, (k'.handlers n).arrived = (k.handlers n).arrived)
    (hwrote : ∀ n, (k'.calls n).wrote = (k.calls n).wrote) (hw : k'.client.writing = k.client.writing)
    (hact : k'.client.active = true →
      k.client.active = true ∧ k'.client.pending = k.client.pending ∧ k'.client.stage = k.client.stage) :
    Request k' T M := by
  refine ⟨hline.trans h.line, h.later, h.first, fun hz => h.none (hh ▸ hz), fun hpos => ?_, ?_, fun heq => ?_,
    fun ha hwr => ?_⟩
  · obtain ⟨hle, heq⟩ := h.current (hh ▸ hpos)
    rw [harrived, hwrote, hh]
    refine ⟨hle, fun hl => ?_⟩
    rw [(hact hl.2.1).2.1]
    exact heq ⟨hc ▸ hl.1, (hact hl.2.1).1, hw ▸ hl.2.2⟩
  · obtain ⟨hle, heq⟩ := h.next
    rw [hwrote, hh]
    refine ⟨hle, fun hl => ?_⟩
    rw [(hact hl.2.1).2.1]
    exact heq ⟨hc ▸ hl.1, (hact hl.2.1).1, hw ▸ hl.2.2⟩
  · exact h.started (hh ▸ hc ▸ heq)
  · rw [(hact ha).2.2, hh, hc]
    exact h.stage (hact ha).1 (hw ▸ hwr)

/-- **A prefix of the line** is a prefix of either part of it. -/
theorem exists_split (h : Request k T M) {line : List Frame} (hline : line <+: k.toServer ++ k.client.outbound) :
    ∃ T' M', line = T' ++ M' ∧ T' <+: T ∧ M' <+: M := by
  rw [h.line] at hline
  obtain ⟨rest, hrest⟩ := hline
  rcases List.append_eq_append_iff.1 hrest with ⟨a, hT, hM⟩ | ⟨a, hT, hM⟩
  · exact ⟨line, [], by simp, ⟨a, hT.symm⟩, List.nil_prefix⟩
  · exact ⟨T, a, hT, List.prefix_refl _, ⟨rest, hM.symm⟩⟩

theorem first_of_initial (h : Request k T M) {M' : List Frame} (hM : M' <+: M) :
    ∀ f rest, M' = f :: rest → f.type.isFirst = true ∧ ∀ g ∈ rest, g.type.isFirst = false := by
  rintro f rest rfl
  obtain ⟨more, hmore⟩ := hM
  obtain ⟨hf, hrest⟩ := h.first f (rest ++ more) hmore.symm
  exact ⟨hf, fun g hg => hrest g (List.mem_append_left _ hg)⟩

/-- **The client's writer gave up**: what it had to send is lost. -/
theorem mute (h : Request k T M) (w : Bool) :
    ∃ T' M', Request { k with client := { k.client with writing := false, outbound := [] }, working := w } T' M' := by
  obtain ⟨T', M', hline, hT, hM⟩ := h.exists_split (List.prefix_append k.toServer _)
  refine ⟨T', M', ?_, fun f hf => h.later f (hT.subset hf), h.first_of_initial hM, fun hz => ?_, fun hpos => ?_, ?_,
    fun heq => ?_, fun _ hwr => nomatch hwr⟩
  · rw [← hline]
    exact List.append_nil _
  · exact List.prefix_nil.1 (h.none hz ▸ hT)
  · exact (h.current hpos).short hT (fun hl => nomatch hl.2.2) _
  · exact h.next.short hM (fun hl => nomatch hl.2.2) _
  · exact List.prefix_nil.1 (h.started heq ▸ hM)

theorem wrote_current (hpos : 0 < k.handlerCnt) (hcall : 0 < k.callCnt) (d : Deed) :
    (note k.calls (k.callCnt - 1) d (k.handlerCnt - 1)).wrote =
      (k.calls (k.handlerCnt - 1)).wrote ++ if k.handlerCnt = k.callCnt then d.bytes else [] := by
  split
  · rename_i heq
    rw [heq, note_self, Log.wrote_note]
  · rw [note_of_ne (by omega), List.append_nil]

theorem wrote_next (hc : k.handlerCnt ≤ k.callCnt ∧ k.callCnt ≤ k.handlerCnt + 1) (hcall : 0 < k.callCnt) (d : Deed) :
    (note k.calls (k.callCnt - 1) d k.handlerCnt).wrote =
      (k.calls k.handlerCnt).wrote ++ if k.handlerCnt < k.callCnt then d.bytes else [] := by
  split
  · rename_i hlt
    have heq : k.callCnt - 1 = k.handlerCnt := by omega
    rw [heq, note_self, Log.wrote_note]
  · rw [note_of_ne (by omega), List.append_nil]

/-- **The call wrote, and no packet came of it.** -/
theorem write (h : Request k T M) (hc : k.handlerCnt ≤ k.callCnt ∧ k.callCnt ≤ k.handlerCnt + 1) (hcall : 0 < k.callCnt)
    (d : Deed) (w : Bool) :
    Request { k with
      client := { k.client with pending := k.client.pending ++ d.bytes }
      calls := note k.calls (k.callCnt - 1) d
      working := w } T M := by
  refine ⟨h.line, h.later, h.first, h.none, fun hpos => ?_, ?_, h.started, h.stage⟩
  · dsimp only
    rw [wrote_current (k := k) hpos hcall]
    obtain heq | hne := em (k.handlerCnt = k.callCnt)
    · rw [if_pos heq]
      exact (h.current hpos).write _
    · rw [if_neg hne]
      exact (h.current hpos).cut (fun hl => hne hl.1) _ _
  · dsimp only
    rw [wrote_next (k := k) hc hcall]
    obtain hlt | hge := em (k.handlerCnt < k.callCnt)
    · rw [if_pos hlt]
      exact h.next.write _
    · rw [if_neg hge]
      exact h.next.cut (fun hl => hge hl.1) _ _

/-- **The call handed a packet to the writer.** -/
theorem emit (h : Request k T M) (hc : k.handlerCnt ≤ k.callCnt ∧ k.callCnt ≤ k.handlerCnt + 1) (hcall : 0 < k.callCnt)
    (ha : k.client.active = true) {f : Frame} {pending : List UInt8} {d : Deed} {stage : Stage}
    (hbytes : f.body ++ pending = k.client.pending ++ d.bytes)
    (hfirst : f.type.isFirst = true ↔ k.client.stage = .unsent) (hstage : stage ≠ .unsent) (w : Bool) :
    ∃ T' M', Request { k with
      client := { k.client with pending := pending, stage := stage, outbound := k.client.emit f }
      calls := note k.calls (k.callCnt - 1) d
      working := w } T' M' := by
  cases hw : k.client.writing with
  | false =>
    -- the packet is dropped
    refine ⟨T, M, ?_, h.later, h.first, h.none, fun hpos => ?_, ?_, h.started, fun _ hwr => ?_⟩
    · simp only [End.emit, hw]
      exact h.line
    · dsimp only
      rw [wrote_current (k := k) hpos hcall]
      exact (h.current hpos).cut (fun hl => by rw [hw] at hl; cases hl.2.2) _ _
    · dsimp only
      rw [wrote_next (k := k) hc hcall]
      exact h.next.cut (fun hl => by rw [hw] at hl; cases hl.2.2) _ _
    · dsimp only at hwr
      rw [hw] at hwr
      cases hwr
  | true =>
    have hstageOk := h.stage ha hw
    have hemit : k.toServer ++ k.client.emit f = T ++ M ++ [f] := by
      rw [End.emit, hw, if_pos rfl, ← List.append_assoc, h.line]
    obtain heq | hlt : k.handlerCnt = k.callCnt ∨ k.handlerCnt < k.callCnt := Nat.eq_or_lt_of_le hc.1
    · -- it goes to the handler there is
      have hM := h.started heq
      have hnf : f.type.isFirst = false := by
        rw [← Bool.not_eq_true, hfirst, hstageOk]
        exact fun hl => absurd hl.1 (by omega)
      refine ⟨T ++ [f], [], ?_, ?_, (fun _ _ hf => nomatch hf), fun hz => ?_, fun hpos => ?_, ?_, fun _ => rfl, fun _ _ => ?_⟩
      · dsimp only
        rw [hemit, hM, List.append_nil, List.append_nil]
      · intro g hg
        rcases List.mem_append.1 hg with hg | hg
        · exact h.later g hg
        · rw [List.mem_singleton.1 hg]
          exact hnf
      · exact absurd (heq ▸ hz : k.callCnt = 0) (by omega)
      · dsimp only
        rw [wrote_current (k := k) hpos hcall, if_pos heq]
        exact (h.current hpos).emit ⟨heq, ha, hw⟩ hbytes
      · dsimp only
        rw [wrote_next (k := k) hc hcall]
        have hnext := h.next
        rw [hM] at hnext
        exact hnext.cut (fun hl => absurd hl.1 (by omega)) _ _
      · exact ⟨fun hs => absurd hs hstage, fun hl => absurd hl.1 (by dsimp only; omega)⟩
    · -- it goes to the handler to be started
      refine ⟨T, M ++ [f], ?_, h.later, fun g rest hg => ?_, h.none, fun hpos => ?_, ?_, fun heq => ?_, fun _ _ => ?_⟩
      · dsimp only
        rw [hemit, List.append_assoc]
      · cases M with
        | nil =>
          rw [List.nil_append] at hg
          cases hg
          exact ⟨hfirst.2 (hstageOk.2 ⟨hlt, rfl⟩), fun _ hmem => nomatch hmem⟩
        | cons g' M =>
          cases hg
          obtain ⟨hg, hrest⟩ := h.first _ _ rfl
          refine ⟨hg, fun i hi => ?_⟩
          rcases List.mem_append.1 hi with hi | hi
          · exact hrest i hi
          · rw [List.mem_singleton.1 hi, ← Bool.not_eq_true, hfirst, hstageOk]
            exact fun hl => nomatch hl.2
      · dsimp only
        rw [wrote_current (k := k) hpos hcall]
        exact (h.current hpos).cut (fun hl => absurd hl.1 (by omega)) _ _
      · dsimp only
        rw [wrote_next (k := k) hc hcall, if_pos hlt]
        exact h.next.emit ⟨hlt, ha, hw⟩ hbytes
      · exact absurd heq (by dsimp only; omega)
      · refine ⟨fun hs => absurd hs hstage, fun hl => ?_⟩
        exact absurd hl.2 (by simp)

/-- **A new call has sent nothing yet.** -/
theorem callBegin (h : Request k T M) (heq : k.handlerCnt = k.callCnt) (hempty : k.calls k.callCnt = Log.empty) :
    Request { k with client := k.client.begin_ [], callCnt := k.callCnt + 1 } T M := by
  have hM := h.started heq
  refine ⟨h.line, h.later, h.first, h.none, fun hpos => ?_, ?_, fun hcnt => ?_, fun _ _ => ?_⟩
  · exact (h.current hpos).short (List.prefix_refl _) (fun hl => absurd hl.1 (by dsimp only; omega)) _
  · dsimp only
    rw [heq, hempty, hM]
    exact ⟨List.nil_prefix, fun _ => rfl⟩
  · exact hM
  · exact ⟨fun _ => ⟨by dsimp only; omega, hM⟩, fun _ => rfl⟩

theorem eq_nil_of_first (h : Request k T M) {f : Frame} {rest : List Frame} (hs : k.toServer = f :: rest)
    (hf : f.type.isFirst = true) : T = [] ∧ M = f :: (rest ++ k.client.outbound) := by
  have hline := h.line
  rw [hs, List.cons_append] at hline
  cases T with
  | nil => exact ⟨rfl, hline.symm⟩
  | cons g T =>
    obtain ⟨rfl, -⟩ := List.cons.inj hline
    have := h.later f List.mem_cons_self
    rw [hf] at this
    cases this

theorem eq_cons_of_later (h : Request k T M) {f : Frame} {rest : List Frame} (hs : k.toServer = f :: rest)
    (hf : f.type.isFirst = false) : ∃ T', T = f :: T' ∧ rest ++ k.client.outbound = T' ++ M := by
  have hline := h.line
  rw [hs, List.cons_append] at hline
  cases T with
  | nil =>
    have := (h.first f _ hline.symm).1
    rw [hf] at this
    cases this
  | cons g T =>
    obtain ⟨rfl, hrest⟩ := List.cons.inj hline
    exact ⟨T, rfl, hrest⟩

/-- **A first packet is of a call that has no handler yet.** -/
theorem handlerCnt_lt (h : Request k T M) (hc : k.handlerCnt ≤ k.callCnt) {f : Frame} {rest : List Frame}
    (hs : k.toServer = f :: rest) (hf : f.type.isFirst = true) : k.handlerCnt < k.callCnt := by
  refine Nat.lt_of_le_of_ne hc fun heq => ?_
  have hM := (h.eq_nil_of_first hs hf).2
  rw [h.started heq] at hM
  cases hM

theorem handlerBegin (h : Request k T M) (hc : k.handlerCnt ≤ k.callCnt ∧ k.callCnt ≤ k.handlerCnt + 1) {f : Frame}
    {rest : List Frame} (hs : k.toServer = f :: rest) (hf : f.type.isFirst = true)
    (hempty : k.handlers k.handlerCnt = Log.empty) (hcalls : ∀ n, k.callCnt ≤ n → k.calls n = Log.empty) :
    Request { k with
      server := k.server.begin_ f.body
      toServer := rest
      handlers := note k.handlers k.handlerCnt (.arrived f.body)
      handlerCnt := k.handlerCnt + 1 } (rest ++ k.client.outbound) [] := by
  obtain ⟨-, hM⟩ := h.eq_nil_of_first hs hf
  have hlt := h.handlerCnt_lt hc.1 hs hf
  refine ⟨(List.append_nil _).symm, (h.first _ _ hM).2, (fun _ _ hg => nomatch hg), (fun hz => nomatch hz), fun _ => ?_, ?_,
    fun _ => rfl, fun ha hw => ?_⟩
  · have hnext := h.next
    rw [hM] at hnext
    have hflow := hnext.arrive
    dsimp only
    rw [Nat.add_sub_cancel, note_self, hempty]
    exact hflow.mono fun hl => ⟨hlt, hl.2⟩
  · dsimp only
    rw [hcalls _ (by omega)]
    exact ⟨List.nil_prefix, fun hl => absurd hl.1 (by omega)⟩
  · have hst := h.stage ha hw
    rw [hM] at hst
    refine ⟨fun hs => ?_, fun hl => absurd hl.1 (by dsimp only; omega)⟩
    cases (hst.1 hs).2

theorem serverReceive (h : Request k T M) (hpos : 0 < k.handlerCnt) {f : Frame} {rest T' : List Frame} (hT : T = f :: T')
    (hline : rest ++ k.client.outbound = T' ++ M) :
    Request { k with
      server := { k.server with inbound := k.server.inbound ++ f.body }
      toServer := rest
      handlers := note k.handlers (k.handlerCnt - 1) (.arrived f.body) } T' M := by
  refine ⟨hline, fun g hg => h.later g (hT ▸ List.mem_cons_of_mem _ hg), h.first,
    fun hz => absurd hz (Nat.pos_iff_ne_zero.1 hpos), fun _ => ?_, h.next, h.started, h.stage⟩
  have hcur := h.current hpos
  rw [hT] at hcur
  dsimp only
  rw [note_self, Log.arrived_note]
  exact hcur.arrive

end Request
end Lane

/-! ## Responses on their way -/

namespace Lane

variable {k k' : Lane}

namespace Response

/-- Nothing changed that concerns the responses on their way. -/
theorem congr (h : Response k) (hline : k'.toClient ++ k'.server.outbound = k.toClient ++ k.server.outbound)
    (hh : k'.handlerCnt = k.handlerCnt) (hc : k'.callCnt = k.callCnt)
    (harrived : ∀ n, (k'.calls n).arrived = (k.calls n).arrived)
    (hwrote : ∀ n, (k'.handlers n).wrote = (k.handlers n).wrote) (ha : k'.client.active = k.client.active)
    (hw : k'.working = true → k.working = true) (hwr : k'.server.writing = k.server.writing)
    (hact : k'.server.active = true →
      k.server.active = true ∧ k'.server.pending = k.server.pending ∧ k'.server.stage = k.server.stage) :
    Response k' := by
  refine ⟨by rw [hline]; exact h.bodies, fun hca heq => ?_, fun hq => ?_, fun hca hwork => ?_⟩
  · obtain ⟨hle, hfull⟩ := h.current (ha ▸ hca) (hh ▸ hc ▸ heq)
    rw [harrived, hwrote, hline, hc]
    refine ⟨hle, fun hl => ?_⟩
    rw [(hact hl.1).2.1]
    exact hfull ⟨(hact hl.1).1, hwr ▸ hl.2⟩
  · rw [ha, hh, hc] at hq
    obtain ⟨hnil, hdone⟩ := h.quiet (hq.imp_right fun hi => ⟨hi.1, hw hi.2⟩)
    rw [hline]
    exact ⟨hnil, fun hsa => (hact hsa).2.2.trans (hdone (hact hsa).1)⟩
  · rw [hh, hc]
    exact h.answered (ha ▸ hca) (hw hwork)

/-- **The server's writer gave up.** -/
theorem mute (h : Response k) :
    Response { k with server := { k.server with writing := false, outbound := [] } } := by
  have hbefore : k.toClient ++ [] <+: k.toClient ++ k.server.outbound := by
    rw [List.append_nil]
    exact List.prefix_append _ _
  refine ⟨fun f hf => h.bodies f (hbefore.subset hf), fun hca heq => ?_, fun hq => ?_, h.answered⟩
  · exact (h.current hca heq).short hbefore (fun hl => nomatch hl.2) _
  · obtain ⟨hnil, hdone⟩ := h.quiet hq
    exact ⟨List.prefix_nil.1 (hnil ▸ hbefore), hdone⟩

/-- **Only a handler of the current call writes.** -/
theorem active_of_not_done (h : Response k) (hc : k.handlerCnt ≤ k.callCnt) (ha : k.server.active = true)
    (hs : k.server.stage ≠ .done) :
    (k.client.active = true → k.handlerCnt = k.callCnt) ∧ (k.client.active = false → k.working = false) := by
  refine ⟨fun hca => ?_, fun hca => ?_⟩
  · by_contra hne
    exact hs ((h.quiet (Or.inl ⟨hca, Nat.lt_of_le_of_ne hc hne⟩)).2 ha)
  · by_contra hne
    rw [Bool.not_eq_false] at hne
    exact hs ((h.quiet (Or.inr ⟨hca, hne⟩)).2 ha)

theorem write (h : Response k) (d : Deed) :
    Response { k with
      server := { k.server with pending := k.server.pending ++ d.bytes }
      handlers := note k.handlers (k.handlerCnt - 1) d } := by
  refine ⟨h.bodies, fun hca heq => ?_, h.quiet, h.answered⟩
  have heq' : k.handlerCnt = k.callCnt := heq
  dsimp only
  rw [← heq', note_self, Log.wrote_note, heq']
  exact (h.current hca heq).write _

/-- **The handler handed a packet to the writer.** -/
theorem emit (h : Response k) (hc : k.handlerCnt ≤ k.callCnt) (ha : k.server.active = true) (hs : k.server.stage ≠ .done)
    {f : Frame} {pending : List UInt8} {d : Deed} {stage : Stage} (hbody : f.body ≠ [])
    (hbytes : f.body ++ pending = k.server.pending ++ d.bytes) :
    Response { k with
      server := { k.server with pending := pending, stage := stage, outbound := k.server.emit f }
      handlers := note k.handlers (k.handlerCnt - 1) d } := by
  obtain ⟨hcur, hidle⟩ := h.active_of_not_done hc ha hs
  refine ⟨?_, fun hca heq => ?_, fun hq => ?_, h.answered⟩
  · intro g hg
    dsimp only at hg
    unfold End.emit at hg
    split at hg
    · rw [← List.append_assoc] at hg
      rcases List.mem_append.1 hg with hg | hg
      · exact h.bodies g hg
      · rw [List.mem_singleton.1 hg]
        exact hbody
    · exact h.bodies g hg
  · have heq' : k.handlerCnt = k.callCnt := heq
    have hflow := h.current hca heq
    dsimp only
    rw [← heq', note_self, Log.wrote_note, heq']
    unfold End.emit
    split
    · rename_i hw
      rw [← List.append_assoc]
      exact hflow.emit ⟨ha, hw⟩ hbytes
    · rename_i hw
      exact hflow.cut (fun hl => hw hl.2) _ _
  · rcases hq with ⟨hca, hlt⟩ | ⟨hca, hwork⟩
    · exact absurd (hcur hca) (Nat.ne_of_lt hlt)
    · exact absurd (hidle hca) (by simpa using hwork)

/-- **A new handler has sent nothing yet.** -/
theorem handlerBegin (h : Response k) (hc : k.callCnt ≤ k.handlerCnt + 1) (hlt : k.handlerCnt < k.callCnt)
    (harrived : (k.calls k.handlerCnt).arrived = []) (hempty : k.handlers k.handlerCnt = Log.empty) (f : Frame)
    (rest : List Frame) :
    Response { k with
      server := k.server.begin_ f.body
      toServer := rest
      handlers := note k.handlers k.handlerCnt (.arrived f.body)
      handlerCnt := k.handlerCnt + 1 } := by
  have hcall : k.callCnt - 1 = k.handlerCnt := by omega
  refine ⟨h.bodies, fun hca _ => ?_, fun hq => ?_, fun hca hwork => ?_⟩
  · have hnil := (h.quiet (Or.inl ⟨hca, hlt⟩)).1
    dsimp only [End.begin_]
    rw [hnil, hcall, note_self, hempty, harrived]
    exact ⟨List.nil_prefix, fun _ => rfl⟩
  · rcases hq with ⟨hca, hlt'⟩ | ⟨hca, hwork⟩
    · exact absurd hlt' (by dsimp only; omega)
    · exact absurd (h.answered hca hwork) (by omega)
  · exact absurd (h.answered hca hwork) (by omega)

/-- **A new call finds nothing on its way.** -/
theorem callBegin (h : Response k) (hw : k.working = true) (ha : k.client.active = false) :
    Response { k with client := k.client.begin_ [], callCnt := k.callCnt + 1 } := by
  have hidle := h.quiet (Or.inr ⟨ha, hw⟩)
  have heq := h.answered ha hw
  refine ⟨h.bodies, fun _ hcnt => ?_, fun _ => hidle, fun hca => nomatch hca⟩
  exact absurd hcnt (by dsimp only; omega)

theorem clientReceive (h : Response k) (hc : k.handlerCnt ≤ k.callCnt) {f : Frame} {rest : List Frame}
    (hs : k.toClient = f :: rest) (ha : k.client.active = true) :
    Response { k with
      client := { k.client with inbound := k.client.inbound ++ f.body }
      toClient := rest
      calls := note k.calls (k.callCnt - 1) (.arrived f.body) } := by
  have heq : k.handlerCnt = k.callCnt := by
    by_contra hne
    have hnil := (h.quiet (Or.inl ⟨ha, Nat.lt_of_le_of_ne hc hne⟩)).1
    rw [hs] at hnil
    cases hnil
  refine ⟨fun g hg => h.bodies g ?_, fun _ _ => ?_, fun hq => ?_, fun hca => ?_⟩
  · rw [hs]
    exact List.mem_cons_of_mem _ hg
  · have hcur := h.current ha heq
    rw [hs, List.cons_append] at hcur
    dsimp only
    rw [note_self, Log.arrived_note]
    exact hcur.arrive
  · rcases hq with ⟨-, hlt⟩ | ⟨hca, -⟩
    · exact absurd heq (Nat.ne_of_lt hlt)
    · exact absurd (ha.symm.trans hca) (by simp)
  · exact absurd (ha.symm.trans hca) (by simp)

/-- **An answered call leaves nothing behind**: its response was read to the end, and no packet of it is empty. -/
theorem eq_nil_of_answered (h : Response k) (hc : k.handlerCnt ≤ k.callCnt)
    (hdelivered : (k.calls (k.callCnt - 1)).delivered.Sublist (k.calls (k.callCnt - 1)).arrived)
    (hempty : ∀ n, k.handlerCnt ≤ n → k.handlers n = Log.empty) (ha : k.client.active = true) (hpos : 0 < k.callCnt)
    (hans : k.Answered) : k.handlerCnt = k.callCnt ∧ k.toClient ++ k.server.outbound = [] := by
  obtain ⟨-, hne, hread⟩ := hans
  have heq : k.handlerCnt = k.callCnt := by
    by_contra hcnt
    refine hne ?_
    rw [hempty _ (by omega)]
    rfl
  refine ⟨heq, eq_nil_of_bodies ?_ h.bodies⟩
  have hle := (h.current ha heq).le.length_le
  have hlen := hdelivered.length_le
  rw [← hread, List.length_append] at hle
  exact List.eq_nil_of_length_eq_zero (by omega)

end Response
end Lane

/-! ## The invariant -/

theorem Deed.bytes_of {d : Deed} {bytes : List UInt8} (hd : d = .wrote bytes ∨ (d = .nothing ∧ bytes = [])) :
    d.bytes = bytes := by
  obtain rfl | ⟨rfl, rfl⟩ := hd <;> rfl

theorem End.Move.listening {e e' : End} {d : Deed} (hm : e.Move d e') (h : e'.listening = true) : e.listening = true := by
  cases hm with
  | deaf => cases h
  | _ => exact h

namespace Lane

variable {k k' : Lane}

theorem wrote_le_note (logs : Nat → Log) (i : Nat) (d : Deed) (n : Nat) : (logs n).wrote <+: (note logs i d n).wrote :=
  note_forall (P := fun n l => (logs n).wrote <+: l.wrote) (fun _ => List.prefix_refl _)
    (by rw [Log.wrote_note]; exact List.prefix_append _ _) n

theorem arrived_note_of {logs : Nat → Log} {d : Deed} (hd : d.arriving = []) (i n : Nat) :
    (note logs i d n).arrived = (logs n).arrived :=
  note_forall (P := fun n l => l.arrived = (logs n).arrived) (fun _ => rfl)
    (by rw [Log.arrived_note, hd, List.append_nil]) n

theorem wrote_note_of {logs : Nat → Log} {d : Deed} (hd : d.bytes = []) (i n : Nat) :
    (note logs i d n).wrote = (logs n).wrote :=
  note_forall (P := fun n l => l.wrote = (logs n).wrote) (fun _ => rfl)
    (by rw [Log.wrote_note, hd, List.append_nil]) n

namespace Inv

theorem client (h : k.Inv) {d : Deed} {e : End} {w : Bool} (hm : k.client.Move d e) (hw : w = true → k.working = true)
    (hl : w = true → e.listening = true) :
    Inv { k with client := e, calls := note k.calls (k.callCnt - 1) d, working := w } := by
  refine ⟨h.cnt, h.calls.move hm, h.handlers, hl, fun n => (h.requests n).trans (wrote_le_note _ _ _ _), fun n => ?_,
    fun hlist => ?_, fun hlist => ?_⟩
  · dsimp only
    rw [arrived_note_of hm.arriving]
    exact h.responses n
  · obtain ⟨T, M, hreq⟩ := h.request hlist
    have hcongr : d.bytes = [] → e.outbound = k.client.outbound → e.writing = k.client.writing →
        e.pending = k.client.pending → e.stage = k.client.stage →
        ∃ T M, Request { k with client := e, calls := note k.calls (k.callCnt - 1) d, working := w } T M :=
      fun hd hout hwr hp hs => ⟨T, M, hreq.congr (by rw [hout]) rfl rfl (fun _ => rfl) (wrote_note_of hd _) hwr
        fun ha => ⟨hm.active ▸ ha, hp, hs⟩⟩
    cases hm with
    | stay => exact hcongr rfl rfl rfl rfl rfl
    | deaf => exact hcongr rfl rfl rfl rfl rfl
    | mute =>
      rw [note_nothing]
      exact hreq.mute w
    | write hd ha hs =>
      obtain rfl := Deed.bytes_of hd
      exact ⟨T, M, hreq.write h.cnt (h.calls.pos ha) d w⟩
    | put hd ha hs hbytes hfirst hbody =>
      obtain rfl := Deed.bytes_of hd
      exact hreq.emit h.cnt (h.calls.pos ha) ha hbytes hfirst (by simp) w
    | flush ha hs hbytes hfirst hbody =>
      refine hreq.emit h.cnt (h.calls.pos ha) ha ?_ hfirst (by simp) w
      rw [hbytes]
      rfl
    | returned ha hb => exact hcongr rfl rfl rfl rfl rfl
    | failed ha hb => exact hcongr rfl rfl rfl rfl rfl
  · exact (h.response (hm.listening hlist)).congr rfl rfl rfl (fun n => arrived_note_of hm.arriving _ n) (fun _ => rfl)
      hm.active hw rfl fun ha => ⟨ha, rfl, rfl⟩

theorem server (h : k.Inv) {d : Deed} {e : End} (hm : k.server.Move d e)
    (hf : d = .flushed → (k.handlers (k.handlerCnt - 1)).wrote ≠ []) :
    Inv { k with server := e, handlers := note k.handlers (k.handlerCnt - 1) d } := by
  refine ⟨h.cnt, h.calls, h.handlers.move hm, h.working, fun n => ?_, fun n => (h.responses n).trans (wrote_le_note _ _ _ _),
    fun hlist => ?_, fun hlist => ?_⟩
  · dsimp only
    rw [arrived_note_of hm.arriving]
    exact h.requests n
  · obtain ⟨T, M, hreq⟩ := h.request (hm.listening hlist)
    exact ⟨T, M, hreq.congr rfl rfl rfl (fun n => arrived_note_of hm.arriving _ n) (fun _ => rfl) rfl
      fun ha => ⟨ha, rfl, rfl⟩⟩
  · have hresp := h.response hlist
    have hcongr : d.bytes = [] → e.outbound = k.server.outbound → e.writing = k.server.writing →
        e.pending = k.server.pending → e.stage = k.server.stage →
        Response { k with server := e, handlers := note k.handlers (k.handlerCnt - 1) d } :=
      fun hd hout hwr hp hs => hresp.congr (by rw [hout]) rfl rfl (fun _ => rfl) (wrote_note_of hd _) rfl id hwr
        fun ha => ⟨hm.active ▸ ha, hp, hs⟩
    cases hm with
    | stay => exact hcongr rfl rfl rfl rfl rfl
    | deaf => exact hcongr rfl rfl rfl rfl rfl
    | mute =>
      rw [note_nothing]
      exact hresp.mute
    | write hd ha hs =>
      obtain rfl := Deed.bytes_of hd
      exact hresp.write d
    | put hd ha hs hbytes hfirst hbody =>
      obtain rfl := Deed.bytes_of hd
      exact hresp.emit h.cnt.1 ha hs hbody hbytes
    | @flush f ha hs hbytes hfirst hbody =>
      refine hresp.emit h.cnt.1 ha hs ?_ (by rw [hbytes]; rfl)
      cases hst : k.server.stage with
      | unsent =>
        rw [hbytes, h.handlers.unsent ha hst]
        exact hf rfl
      | sent => exact hbody hst
      | done => exact absurd hst hs
    | returned ha hb => exact hcongr rfl rfl rfl rfl rfl
    | failed ha hb => exact hcongr rfl rfl rfl rfl rfl

/-- **What came for an exchange was written in it, from the first packet on.** -/
theorem requests_arrive (h : k.Inv) {n : Nat} {bytes : List UInt8}
    (hn : (k.handlers n).arrived ++ bytes <+: (k.calls n).wrote) (i : Nat) :
    (note k.handlers n (.arrived bytes) i).arrived <+: (k.calls i).wrote :=
  note_forall (n := n) (d := .arrived bytes) (P := fun i l => l.arrived <+: (k.calls i).wrote) h.requests hn i

theorem responses_arrive (h : k.Inv) {n : Nat} {bytes : List UInt8}
    (hn : (k.calls n).arrived ++ bytes <+: (k.handlers n).wrote) (i : Nat) :
    (note k.calls n (.arrived bytes) i).arrived <+: (k.handlers i).wrote :=
  note_forall (n := n) (d := .arrived bytes) (P := fun i l => l.arrived <+: (k.handlers i).wrote) h.responses hn i

theorem handlerBegin (h : k.Inv) {f : Frame} {rest : List Frame} (hs : k.toServer = f :: rest)
    (hl : k.server.listening = true) (hf : f.type.isFirst = true) :
    Inv { k with
      server := k.server.begin_ f.body
      toServer := rest
      handlers := note k.handlers k.handlerCnt (.arrived f.body)
      handlerCnt := k.handlerCnt + 1 } := by
  obtain ⟨T, M, hreq⟩ := h.request hl
  have hlt := hreq.handlerCnt_lt h.cnt.1 hs hf
  have hempty := h.handlers.empty k.handlerCnt (Nat.le_refl _)
  have hrequest := hreq.handlerBegin h.cnt hs hf hempty h.calls.empty
  refine ⟨⟨by dsimp only; omega, Nat.le_succ_of_le h.cnt.2⟩, h.calls, h.handlers.begin_ _, h.working, h.requests_arrive ?_,
    fun n => (h.responses n).trans (wrote_le_note _ _ _ _), fun _ => ⟨_, _, hrequest⟩, fun hcl => ?_⟩
  · have hle := (hrequest.current (Nat.succ_pos _)).arrived_le
    dsimp only at hle
    rw [Nat.add_sub_cancel, note_self, Log.arrived_note] at hle
    exact hle
  · refine (h.response hcl).handlerBegin h.cnt.2 hlt ?_ hempty f rest
    have := h.responses k.handlerCnt
    rw [hempty] at this
    exact List.prefix_nil.1 this

theorem serverReceive (h : k.Inv) {f : Frame} {rest : List Frame} (hs : k.toServer = f :: rest)
    (hl : k.server.listening = true) (hf : f.type.isFirst = false) (ha : k.server.active = true) :
    Inv { k with
      server := { k.server with inbound := k.server.inbound ++ f.body }
      toServer := rest
      handlers := note k.handlers (k.handlerCnt - 1) (.arrived f.body) } := by
  obtain ⟨T, M, hreq⟩ := h.request hl
  obtain ⟨T', hT, hline⟩ := hreq.eq_cons_of_later hs hf
  have hpos := h.handlers.pos ha
  have hrequest := hreq.serverReceive hpos hT hline
  refine ⟨h.cnt, h.calls, h.handlers.arrive ha _, h.working, h.requests_arrive ?_, fun n => ?_, fun _ => ⟨_, _, hrequest⟩,
    fun hcl => ?_⟩
  · have hle := (hrequest.current hpos).arrived_le
    dsimp only at hle
    rw [note_self, Log.arrived_note] at hle
    exact hle
  · exact (h.responses n).trans (wrote_le_note _ _ _ _)
  · exact (h.response hcl).congr rfl rfl rfl (fun _ => rfl) (wrote_note_of rfl _) rfl id rfl fun ha => ⟨ha, rfl, rfl⟩

theorem clientReceive (h : k.Inv) {f : Frame} {rest : List Frame} (hs : k.toClient = f :: rest)
    (hl : k.client.listening = true) (ha : k.client.active = true) :
    Inv { k with
      client := { k.client with inbound := k.client.inbound ++ f.body }
      toClient := rest
      calls := note k.calls (k.callCnt - 1) (.arrived f.body) } := by
  have hresp := (h.response hl).clientReceive h.cnt.1 hs ha
  have heq : k.handlerCnt = k.callCnt := by
    by_contra hne
    have hnil := ((h.response hl).quiet (Or.inl ⟨ha, Nat.lt_of_le_of_ne h.cnt.1 hne⟩)).1
    rw [hs] at hnil
    cases hnil
  refine ⟨h.cnt, h.calls.arrive ha _, h.handlers, h.working, fun n => ?_, h.responses_arrive ?_, fun hsl => ?_, fun _ => hresp⟩
  · exact (h.requests n).trans (wrote_le_note _ _ _ _)
  · have hle := (hresp.current ha heq).arrived_le
    dsimp only at hle
    rw [note_self, Log.arrived_note] at hle
    exact hle
  · obtain ⟨T, M, hreq⟩ := h.request hsl
    exact ⟨T, M, hreq.congr rfl rfl rfl (fun _ => rfl) (wrote_note_of rfl _) rfl fun ha => ⟨ha, rfl, rfl⟩⟩

theorem callBegin (h : k.Inv) (hw : k.working = true) (ha : k.client.active = false) :
    Inv { k with client := k.client.begin_ [], callCnt := k.callCnt + 1 } := by
  have hl := h.working hw
  have heq := (h.response hl).answered ha hw
  have hkept := h.calls.begin_ []
  rw [note_arrived_nil] at hkept
  refine ⟨⟨by dsimp only; omega, by dsimp only; omega⟩, hkept, h.handlers, fun _ => hl, h.requests, h.responses,
    fun hsl => ?_, fun _ => (h.response hl).callBegin hw ha⟩
  obtain ⟨T, M, hreq⟩ := h.request hsl
  exact ⟨T, M, hreq.callBegin heq (h.calls.empty _ (Nat.le_refl _))⟩

theorem callFinish (h : k.Inv) (ha : k.client.active = true) (hg : k.working = false ∨ k.Answered) :
    Inv { k with client := k.client.finish } := by
  refine ⟨h.cnt, h.calls.finish, h.handlers, h.working, h.requests, h.responses, fun hsl => ?_, fun hl => ?_⟩
  · obtain ⟨T, M, hreq⟩ := h.request hsl
    exact ⟨T, M, hreq.congr rfl rfl rfl (fun _ => rfl) (fun _ => rfl) rfl fun ha => nomatch ha⟩
  · have hresp := h.response hl
    refine ⟨hresp.bodies, (fun hca => nomatch hca), fun hq => ?_, fun _ hwork => ?_⟩
    · rcases hq with ⟨hca, -⟩ | ⟨-, hwork⟩
      · cases hca
      · have hans := hg.resolve_left (by simpa using hwork)
        obtain ⟨heq, hnil⟩ := hresp.eq_nil_of_answered h.cnt.1 (h.calls.delivered _) h.handlers.empty ha (h.calls.pos ha) hans
        refine ⟨hnil, fun hsa => h.handlers.flushed hsa ?_⟩
        rw [heq]
        exact hans.1
    · have hans := hg.resolve_left (by simpa using hwork)
      exact (hresp.eq_nil_of_answered h.cnt.1 (h.calls.delivered _) h.handlers.empty ha (h.calls.pos ha) hans).1

end Inv

/-- **Every step keeps the invariant.** -/
theorem Inv.step (h : k.Inv) {act : Act} (hs : Step k act k') : k'.Inv := by
  cases hs with
  | client hm hw hl => exact h.client hm hw hl
  | clientSend hout =>
    have hline : ∀ f rest, k.client.outbound = f :: rest → k.toServer ++ [f] ++ rest = k.toServer ++ k.client.outbound :=
      fun f rest h => by rw [h]; simp
    refine ⟨h.cnt, h.calls.of_eq rfl rfl rfl rfl (fun hw => ?_), h.handlers, h.working, h.requests, h.responses,
      fun hsl => ?_, fun hl => (h.response hl).congr rfl rfl rfl (fun _ => rfl) (fun _ => rfl) rfl id rfl fun ha => ⟨ha, rfl, rfl⟩⟩
    · have := h.calls.muted hw
      rw [hout] at this
      cases this
    · obtain ⟨T, M, hreq⟩ := h.request hsl
      exact ⟨T, M, hreq.congr (hline _ _ hout) rfl rfl (fun _ => rfl) (fun _ => rfl) rfl fun ha => ⟨ha, rfl, rfl⟩⟩
  | callBegin hw ha => exact h.callBegin hw ha
  | callFinish ha hg => exact h.callFinish ha hg
  | clientReceive hf hl ha => exact h.clientReceive hf hl ha
  | clientReject hf =>
    refine ⟨h.cnt, h.calls.of_eq rfl rfl rfl rfl h.calls.muted, h.handlers, (fun hw => nomatch hw), h.requests, h.responses,
      fun hsl => ?_, fun hl => nomatch hl⟩
    obtain ⟨T, M, hreq⟩ := h.request hsl
    exact ⟨T, M, hreq.congr rfl rfl rfl (fun _ => rfl) (fun _ => rfl) rfl fun ha => ⟨ha, rfl, rfl⟩⟩
  | server hm hw hf => exact h.server hm hf
  | serverSend hout =>
    have hline : ∀ f rest, k.server.outbound = f :: rest → k.toClient ++ [f] ++ rest = k.toClient ++ k.server.outbound :=
      fun f rest h => by rw [h]; simp
    refine ⟨h.cnt, h.calls, h.handlers.of_eq rfl rfl rfl rfl (fun hw => ?_), h.working, h.requests, h.responses,
      fun hsl => ?_, fun hl => (h.response hl).congr (hline _ _ hout) rfl rfl (fun _ => rfl) (fun _ => rfl) rfl id rfl
        fun ha => ⟨ha, rfl, rfl⟩⟩
    · have := h.handlers.muted hw
      rw [hout] at this
      cases this
    · obtain ⟨T, M, hreq⟩ := h.request hsl
      exact ⟨T, M, hreq.congr rfl rfl rfl (fun _ => rfl) (fun _ => rfl) rfl fun ha => ⟨ha, rfl, rfl⟩⟩
  | handlerBegin hf hl hfirst ha => exact h.handlerBegin hf hl hfirst
  | serverReceive hf hl hfirst ha => exact h.serverReceive hf hl hfirst ha
  | serverReject hf =>
    exact ⟨h.cnt, h.calls, h.handlers.of_eq rfl rfl rfl rfl h.handlers.muted, h.working, h.requests, h.responses,
      (fun hsl => nomatch hsl), fun hl => (h.response hl).congr rfl rfl rfl (fun _ => rfl) (fun _ => rfl) rfl id rfl
        fun ha => ⟨ha, rfl, rfl⟩⟩
  | handlerFinish ha =>
    refine ⟨h.cnt, h.calls, h.handlers.finish, h.working, h.requests, h.responses, fun hsl => ?_, fun hl =>
      (h.response hl).congr rfl rfl rfl (fun _ => rfl) (fun _ => rfl) rfl id rfl fun ha => nomatch ha⟩
    obtain ⟨T, M, hreq⟩ := h.request hsl
    exact ⟨T, M, hreq.congr rfl rfl rfl (fun _ => rfl) (fun _ => rfl) rfl fun ha => ⟨ha, rfl, rfl⟩⟩

/-- **No cross-talk**: what either side of an exchange reads is what the other side of the same exchange wrote; before the
first failed read nothing of it is missing. -/
theorem Inv.received_le (h : k.Inv) (n : Nat) : (k.calls n).received <+: (k.handlers n).wrote ∧
    (k.handlers n).received <+: (k.calls n).wrote :=
  ⟨(h.calls.received n).trans (h.responses n), (h.handlers.received n).trans (h.requests n)⟩

theorem Inv.delivered_le (h : k.Inv) (n : Nat) : (k.calls n).delivered.Sublist (k.handlers n).wrote ∧
    (k.handlers n).delivered.Sublist (k.calls n).wrote :=
  ⟨(h.calls.delivered n).trans (h.responses n).sublist, (h.handlers.delivered n).trans (h.requests n).sublist⟩

end Lane

end Mrpc
