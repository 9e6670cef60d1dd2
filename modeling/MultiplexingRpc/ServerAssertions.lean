import MultiplexingRpc.AssertingServer
/-!
# ServerAssertions — no peer makes a server assertion fail

The model of the server's stream processor says what the code does with its assertions off.  Here it is shown that
turning them on changes nothing: whatever the peer sends and wherever the connection breaks, as long as the handlers
flush once, after they wrote and as their last write, and the server stops only processors that it started.
-/
namespace Mrpc
namespace Asserting

open StreamProcessor (Event lastPacket)

variable {s : StreamProcessor} {p : Packet} {ps : PacketStream} {o : StreamNo} {len : Nat} {buf : List UInt8}

/-! ## Packets and packet streams -/

theorem readData_eq (h : p.Readable) (len : Nat) : readData p len = .ok (p.readData len) := by
  rw [readData, ffAssert_of h.1, ok_bind, ffAssert_of h.2, ok_bind]

theorem writeData_eq (h : p.Written) (buf : List UInt8) : writeData p buf = .ok (p.writeData buf) := by
  rw [writeData, ffAssert_of h.1, ok_bind, ffAssert_of h.2, ok_bind]

theorem readFromStream_eq (h : p.Blank) : readFromStream p = .ok () := by
  rw [readFromStream, ffAssert_of h.1, ok_bind, ffAssert_of (by rw [h.2.1]; rfl)]

theorem writeToStream_eq (h : p.Written) : writeToStream p = .ok () := by
  rw [writeToStream, ffAssert_of h.1, ok_bind, ffAssert_of h.2]

theorem deletePacket_eq (h : p.Blank) : deletePacket p = .ok () := readFromStream_eq h

theorem initialise_eq (hr : ps.currentReadPacket = none) (hw : ps.currentWritePacket = none) (hid : ps.requestId = 0)
    (r : RequestId) : initialise ps r = .ok (ps.initialise r) := by
  rw [initialise, ffAssert_of hr, ok_bind, ffAssert_of hw, ok_bind, ffAssert_of hid, ok_bind]

theorem copy_eq (h : p.Readable) (len : Nat) (buf : List UInt8) : copy p len buf = .ok (PacketStream.copy p len buf) := by
  have hlen : (p.readData len).1.length ≤ len := by
    simp only [Packet.readData, List.length_take]
    omega
  rw [copy, readData_eq h, ok_bind]
  dsimp only
  rw [ffAssert_of hlen, ok_bind]
  unfold PacketStream.copy
  dsimp only
  split
  · rfl
  · split <;> rfl

theorem readStream_eq (h : ps.Neat) (len : Nat) : readStream ps len = .ok (ps.read len) := by
  unfold readStream PacketStream.read
  cases hc : ps.currentReadPacket with
  | none =>
    dsimp only
    rw [ffAssert_of rfl, ok_bind]
  | some current =>
    dsimp only
    rw [copy_eq (h.read current hc), ok_bind]

theorem readNext_eq (h : ps.Neat) (len : Nat) (buf : List UInt8) : readNext ps len buf = .ok (ps.readNext len buf) := by
  unfold readNext PacketStream.readNext
  cases hq : ps.readerQueue with
  | nil => rfl
  | cons p queue =>
    have hp : p.Readable := h.queue p (by rw [hq]; exact List.mem_cons_self)
    cases hc : ps.currentReadPacket with
    | none =>
      dsimp only
      split
      · rw [copy_eq hp, ok_bind]
      · rfl
    | some current =>
      dsimp only
      split
      · rfl
      · rw [copy_eq hp, ok_bind]

/-! ## The owner of a stream -/

theorem acquirePacket_eq (h : s.state ≠ .stopped) : acquirePacket s = .ok s.acquirePacket := by
  rw [acquirePacket, ffAssert_of h, ok_bind]

theorem releasePacket_eq (h : s.state ≠ .stopped) (p : Packet) : releasePacket s p = .ok (s.releasePacket p) := by
  rw [releasePacket, ffAssert_of h, ok_bind]

theorem releasePackets_eq : ∀ (ps : List Packet) {s : StreamProcessor}, s.state ≠ .stopped →
    releasePackets s ps = .ok (s.releasePackets ps)
  | [], _, _ => rfl
  | p :: ps, s, h => by
    have hrest := releasePackets_eq ps (s := s.releasePacket p) h
    rw [releasePackets, List.foldlM_cons, releasePacket_eq h, ok_bind]
    exact hrest

theorem fillWritePacket_eq (h : s.state ≠ .stopped) (hp : p.Written) (o : StreamNo) (buf : List UInt8) :
    fillWritePacket s o p buf = .ok (s.fillWritePacket o p buf) := by
  have hlen : (p.writeData buf).2.length ≤ buf.length := by
    simp only [Packet.writeData, List.length_drop]
    omega
  rw [fillWritePacket, writeData_eq hp, ok_bind]
  dsimp only
  rw [ffAssert_of hlen, ok_bind]
  unfold StreamProcessor.fillWritePacket
  dsimp only
  split
  · rfl
  · rw [ffAssert_of (by decide), ok_bind, ffAssert_of h, ok_bind]

theorem acquireWritePacket_eq (hneat : s.Neat) (h : s.state ≠ .stopped) {type : PacketType} (htype : type ≠ .single)
    (o : StreamNo) (rest : List UInt8) :
    acquireWritePacket s o type rest = .ok (s.acquireWritePacket o type rest) := by
  rw [acquireWritePacket, ffAssert_of htype, ok_bind, acquirePacket_eq h, ok_bind]
  unfold StreamProcessor.acquireWritePacket
  cases hp : s.acquirePacket with
  | none => rfl
  | some acquired =>
    obtain ⟨p, t⟩ := acquired
    obtain ⟨hblank, -⟩ := hneat.acquirePacket hp
    obtain ⟨pool, -, rfl⟩ := StreamProcessor.acquirePacket_eq hp
    exact fillWritePacket_eq (s := { s with packetsPool := pool }) h (hblank.written _ _) o rest

/-- What a turn of an owner relies on. -/
structure Ready (s : StreamProcessor) : Prop where
  neat : s.Neat
  state : ∀ o, s.owned o → s.state ≠ .stopped

theorem read_eq (h : Ready s) (o : StreamNo) (len : Nat) : read s o len = .ok (s.read o len) := by
  unfold read StreamProcessor.read
  split
  · rw [readStream_eq (h.neat.streams o), ok_bind]
  · rfl

theorem get_eq (h : Ready s) (o : StreamNo) : get s o = .ok (s.get o) := by
  unfold get StreamProcessor.get
  cases hf : s.fibers o with
  | running => rfl
  | acquiring type rest => rfl
  | reading len buf =>
    dsimp only
    split
    · rename_i ho
      rw [readNext_eq (h.neat.streams o), ok_bind]
      cases hnext : (s.streams o).readNext len buf with
      | none => rfl
      | some taken =>
        obtain ⟨released, ps, outcome⟩ := taken
        have hst : ((s.setStream o ps).setFiber o outcome.fiber).state ≠ .stopped := h.state o ho
        rw [readTaken, releasePackets_eq _ hst, ok_bind]
    · rfl

theorem write_eq (h : Ready s) {o : StreamNo} (buf : List UInt8)
    (hw : s.fibers o = .running → ∀ p ∈ (s.streams o).currentWritePacket, p.type = .start ∨ p.type = .middle) :
    write s o buf = .ok (s.write o buf) := by
  unfold write StreamProcessor.write
  split
  · rename_i hg
    have hst := h.state o hg.1
    cases hc : (s.streams o).currentWritePacket with
    | none =>
      dsimp only
      rw [acquireWritePacket_eq h.neat hst (by decide), ok_bind]
    | some p =>
      have htype := hw hg.2 p hc
      have hlast : p.type.isLast = false := by rcases htype with htype | htype <;> simp [htype, PacketType.isLast]
      dsimp only
      rw [ffAssert_of htype, ok_bind, fillWritePacket_eq hst ((h.neat.streams o).write p hc).1, ok_bind,
        if_neg (by simp [hlast])]
  · rfl

theorem flush_eq (h : Ready s) {o : StreamNo} (hw : s.owned o → s.fibers o = .running →
      ∃ p, (s.streams o).currentWritePacket = some p ∧ (p.type = .start ∨ p.type = .middle)) :
    flush s o = .ok (s.flush o) := by
  unfold flush StreamProcessor.flush
  split
  · rename_i hg
    obtain ⟨p, hc, htype⟩ := hw hg.1 hg.2
    have hst := h.state o hg.1
    have hlast : p.type.isLast = false := by rcases htype with htype | htype <;> simp [htype, PacketType.isLast]
    have hput := (h.neat.setStream (o := o) (h.neat.streams o).noWritePacket).putPacket
      (StreamProcessor.written_lastPacket ((h.neat.streams o).write p hc).1)
    rw [hc]
    dsimp only
    rw [ffAssert_of htype, ok_bind, acquireWritePacket_eq hput hst (by decide), ok_bind, if_neg (by simp [hlast])]
  · rfl

theorem acquire_eq (h : Ready s) (o : StreamNo) : acquire s o = .ok (s.acquire o) := by
  unfold acquire StreamProcessor.acquire
  cases hf : s.fibers o with
  | running => rfl
  | reading len buf => rfl
  | acquiring type rest =>
    dsimp only
    split
    · rename_i hg
      rw [acquireWritePacket_eq h.neat (h.state o hg.1) (h.neat.fibers o type rest hf), ok_bind]
    · rfl

theorem checkWritePacket_eq {current : Option Packet} (h : ∀ p ∈ current, p.type ≠ .single) :
    checkWritePacket current = .ok () := by
  cases current with
  | none => rfl
  | some p => exact ffAssert_of (h p rfl)

theorem releaseStream_eq (hneat : s.Neat) (hst : s.state ≠ .stopped) (hpos : 0 < s.activeCnt)
    (hle : s.activeCnt ≤ maxRequestStreamsCnt) (ho : s.owned o) : releaseStream s o = .ok (s.releaseStream o) := by
  rw [releaseStream, ffAssert_of hst, ok_bind, ffAssert_of hpos, ok_bind, ffAssert_of hle, ok_bind,
    ffAssert_of (show s.active (s.requestIds o) = some o from ho), ok_bind, shutdown,
    checkWritePacket_eq (fun p hp => ((hneat.streams o).write p hp).2), ok_bind, releasePackets_eq _ hst, ok_bind, ok_bind]
  rfl

end Asserting

/-! ## What handlers promise -/

/-- How far a handler got with its response. -/
inductive Usage where
  | fresh
  | wrote
  | flushed
  deriving DecidableEq, Repr

/-- A processor, and what its handlers did so far. -/
structure Session where
  server : ServerProcessor
  usage : StreamNo → Usage

/-- What the handlers have done after a step. -/
def usageAfter (usage : StreamNo → Usage) : ServerStreamProcessor.Action → StreamNo → Usage
  | .event (.write o _) => Function.update usage o .wrote
  | .event (.flush o) => Function.update usage o .flushed
  | .handlerReturn o _ => Function.update usage o .fresh
  | _ => usage

/-- The step of the model that a call is; none where it only checks. -/
def Call.action : Call → Option ServerStreamProcessor.Action
  | .event e => some (.event e)
  | .start _ _ _ => some .start
  | .readerStart => some .readerStart
  | .receive f o => some (.receive f o)
  | .handlerReturn o result => some (.handlerReturn o result)
  | .stopAsync => some .stopAsync
  | .writerStart | .processRequest _ | .delete => none

namespace ServerProcessor

/-- The pointers after a call: set by a start, cleared at the end of a connection. -/
def pointersAfter (s : ServerProcessor) (c : Call) (core : StreamProcessor) : ServerProcessor :=
  match c with
  | .start streamHandler serviceCtx stream => ⟨core, streamHandler, serviceCtx, stream⟩
  | _ => if core.reader = .stopped then ⟨core, none, none, none⟩ else { s with core := core }

/-- The fiber that a call starts is there. -/
def Starts (s : ServerProcessor) : Call → Prop
  | .writerStart => s.core.writer = .getting
  | .processRequest o => s.core.owned o ∧ s.core.fibers o = .running
  | _ => False

instance (s : ServerProcessor) : DecidablePred s.Starts
  | .writerStart => inferInstanceAs (Decidable (_ = _))
  | .processRequest _ => inferInstanceAs (Decidable (_ ∧ _))
  | .event _ | .start _ _ _ | .readerStart | .receive _ _ | .handlerReturn _ _ | .stopAsync | .delete =>
    inferInstanceAs (Decidable False)

/-- The processor as modelled, with its pointers. -/
def plain (s : ServerProcessor) (c : Call) : Option ServerProcessor :=
  match c.action with
  | some a => (ServerStreamProcessor.step s.core a).map (s.pointersAfter c)
  | none => if s.Starts c then some s else none

end ServerProcessor

namespace Session

/-- The session with its processor after a call. -/
def after (x : Session) (c : Call) (server : Option ServerProcessor) : Option Session :=
  server.map fun server => ⟨server, c.action.elim x.usage (usageAfter x.usage)⟩

/-- With assertions. -/
def checked (x : Session) (c : Call) : Except Fault (Option Session) := do
  let server ← x.server.call c
  .ok (x.after c server)

/-- Without. -/
def unchecked (x : Session) (c : Call) : Option Session := x.after c (x.server.plain c)

def create : Session := ⟨ServerProcessor.create, fun _ => .fresh⟩

/-- What handlers and the server keep to: a handler flushes at most once, after a write, and does not write after it; the
server starts a processor with a handler and a connection, and stops only a processor that it started and that has not
been released since. -/
def Disciplined (x : Session) : Call → Prop
  | .event (.write o _) => x.usage o ≠ .flushed
  | .event (.flush o) => x.usage o = .wrote
  | .start streamHandler _ stream => streamHandler ≠ none ∧ stream ≠ none
  | .stopAsync => x.server.core.reader ≠ .stopped
  | _ => True

end Session

/-- What a handler writes into, by what it did. -/
def UsageOk : Usage → Option PacketType → Prop
  | .fresh, type => type = none
  | .wrote, type => type = some .start ∨ type = some .middle
  | .flushed, _ => True

namespace StreamProcessor

variable {s s' : StreamProcessor} {u : StreamNo → Usage}

/-- **A disciplined turn keeps every handler's packet in step with what it did.** -/
theorem Turn.usage {e : Event} (hs : s.Sound) (h : ∀ o, UsageOk (u o) (s.writeType o)) (ht : Turn s e s')
    (i : StreamNo) : UsageOk (usageAfter u (.event e) i) (s'.writeType i) := by
  by_cases hi : e.writesOn = some i
  · cases ht with
    | @writeFirst o buf ho hf hc =>
      cases hi
      have hu : usageAfter u (.event (.write i buf)) i = .wrote := Function.update_self _ _ _
      rw [hu]
      exact s.writeType_acquireWritePacket _ _ _
    | @writeMore o buf p ho hf hc hlast =>
      cases hi
      have hu : usageAfter u (.event (.write i buf)) i = .wrote := Function.update_self _ _ _
      rw [hu]
      rcases s.writeType_fillWritePacket i p buf with heq | heq
      · rw [heq]
        cases htype : p.type with
        | start => exact Or.inl rfl
        | middle => exact Or.inr rfl
        | end_ => simp [htype, PacketType.isLast] at hlast
        | single => simp [htype, PacketType.isLast] at hlast
      · exact Or.inr heq
    | flush ho hf hc hlast =>
      cases hi
      have hu : usageAfter u (.event (.flush i)) i = .flushed := Function.update_self _ _ _
      rw [hu]
      trivial
    | @acquire o type rest ho hf hpool =>
      cases hi
      have hbefore := h i
      have htype : s.writeType i = some type := by simp [StreamProcessor.writeType, Fiber.writeType, hf]
      rw [htype] at hbefore
      have hafter := s.writeType_acquireWritePacket i type rest
      show UsageOk (u i) _
      cases hu : u i with
      | fresh =>
        rw [hu] at hbefore
        cases hbefore
      | wrote =>
        rw [hu] at hbefore
        rcases hafter with heq | heq
        · rw [heq]
          exact hbefore
        · exact Or.inr heq
      | flushed => trivial
    | _ => cases hi
  · have hu : usageAfter u (.event e) i = u i := by
      cases e with
      | write o buf => exact Function.update_of_ne (fun hio => hi (by rw [hio]; rfl)) _ _
      | flush o => exact Function.update_of_ne (fun hio => hi (by rw [hio]; rfl)) _ _
      | _ => rfl
    rw [hu, ht.writeType hs hi]
    exact h i

end StreamProcessor

/-! ## What holds after every run -/

namespace ServerStreamProcessor

variable {s s' : StreamProcessor} {u : StreamNo → Usage}

/-- A stream without a handler is as it was made, but for what a late disconnect left in its queue. -/
def Idle (s : StreamProcessor) (u : StreamNo → Usage) : Prop :=
  ∀ o, ¬ s.owned o → (s.streams o).currentReadPacket = none ∧ (s.streams o).currentWritePacket = none ∧
    (s.streams o).requestId = 0 ∧ u o = .fresh

theorem Idle.deliver (h : Idle s u) {o : StreamNo} (ho : s.owned o) (p : Packet) : Idle (s.deliver o p) u := by
  intro i hi
  have hne : i ≠ o := fun hio => hi (hio ▸ ho)
  have hstream : (s.deliver o p).streams i = s.streams i := Function.update_of_ne hne _ _
  rw [hstream]
  exact h i hi

theorem Idle.enter (h : Idle s u) {r : RequestId} (hslot : s.active r = none) (o : StreamNo) :
    Idle (s.enter r o) u := by
  intro i hi
  have hne : i ≠ o := fun hio => hi (hio ▸ StreamProcessor.owned_enter_self s r o)
  rw [StreamProcessor.owned_enter hslot hne] at hi
  have hstream : (s.enter r o).streams i = s.streams i := Function.update_of_ne hne _ _
  rw [hstream]
  exact h i hi

theorem Idle.releaseStream (h : Idle s u) {o : StreamNo} (ho : s.owned o) :
    Idle (s.releaseStream o) (Function.update u o .fresh) := by
  intro i hi
  rw [StreamProcessor.streams_releaseStream]
  by_cases hio : i = o
  · subst hio
    rw [Function.update_self, Function.update_self]
    exact ⟨rfl, rfl, rfl, rfl⟩
  · rw [StreamProcessor.owned_releaseStream ho hio] at hi
    rw [Function.update_of_ne hio, Function.update_of_ne hio]
    exact h i hi

theorem Idle.turn {e : StreamProcessor.Event} (h : Idle s u) (hs : Sound s) (ht : StreamProcessor.Turn s e s') :
    Idle s' (usageAfter u (.event e)) := by
  intro i hi
  rw [ht.owned_iff hs.core] at hi
  obtain ⟨hr, hw, hid, hu⟩ := h i hi
  have husage : usageAfter u (.event e) i = .fresh := by
    cases hown : e.owner with
    | none => cases e <;> first | exact hu | cases hown
    | some o =>
      have hne : i ≠ o := fun hio => hi (hio ▸ (ht.ownerFrame hs.core.fiberOk hown).1)
      cases e with
      | write o' buf =>
        cases hown
        exact (Function.update_of_ne hne _ _).trans hu
      | flush o' =>
        cases hown
        exact (Function.update_of_ne hne _ _).trans hu
      | _ => exact hu
  rcases ht.idle_stream hs.core hi with heq | ⟨p, n, -, -, heq⟩
  · rw [heq]
    exact ⟨hr, hw, hid, husage⟩
  · rw [heq]
    exact ⟨hr, hw, hid, husage⟩

theorem Idle.step {a : Action} (h : Idle s u) (hs : Sound s) (hstep : ServerStreamProcessor.step s a = some s') :
    Idle s' (usageAfter u a) := by
  cases outcome_of_step hstep with
  | event ht => exact h.turn hs ht
  | start hr hst => exact h
  | readerStart hr => exact h
  | begun hr hf hslot ho =>
    exact (h.enter hslot _).deliver (StreamProcessor.owned_enter_self _ _ _) _
  | continued hr hf hslot => exact h.deliver (hs.core.owned_of_active hslot) _
  | unexpected hr hf => exact h
  | returned ho hf => exact h.releaseStream ho
  | failed ho hf => exact Idle.releaseStream (s := s.stopAsync) h ho
  | stopAsync hst => exact h

/-- Every handler's packet is in step with what it did. -/
def Usages (s : StreamProcessor) (u : StreamNo → Usage) : Prop := ∀ o, UsageOk (u o) (s.writeType o)

theorem Usages.deliver (h : Usages s u) (o : StreamNo) (p : Packet) : Usages (s.deliver o p) u := by
  intro i
  have heq : (s.deliver o p).writeType i = s.writeType i :=
    StreamProcessor.writeType_congr rfl (StreamProcessor.pushPacket_currentWritePacket s o p i)
  rw [heq]
  exact h i

theorem Usages.enter (h : Usages s u) (hidle : Idle s u) {r : RequestId} {o : StreamNo} (ho : ¬ s.owned o) :
    Usages (s.enter r o) u := by
  intro i
  by_cases hio : i = o
  · subst hio
    obtain ⟨-, hw, -, hu⟩ := hidle i ho
    rw [hu]
    simp [UsageOk, StreamProcessor.writeType, Fiber.writeType, StreamProcessor.enter, PacketStream.initialise, hw]
  · have heq : (s.enter r o).writeType i = s.writeType i :=
      StreamProcessor.writeType_congr (by simp [StreamProcessor.enter, hio]) (by simp [StreamProcessor.enter, hio])
    rw [heq]
    exact h i

theorem Usages.releaseStream (h : Usages s u) {o : StreamNo} (hf : s.fibers o = .running) :
    Usages (s.releaseStream o) (Function.update u o .fresh) := by
  intro i
  by_cases hio : i = o
  · subst hio
    rw [Function.update_self]
    simp [UsageOk, StreamProcessor.writeType, Fiber.writeType, StreamProcessor.releaseStream_eq, hf, PacketStream.create]
  · have heq : (s.releaseStream o).writeType i = s.writeType i := by
      rw [StreamProcessor.releaseStream_eq]
      exact StreamProcessor.writeType_congr rfl (by simp [hio])
    rw [heq, Function.update_of_ne hio]
    exact h i

theorem Usages.step {a : Action} (h : Usages s u) (hidle : Idle s u) (hs : Sound s)
    (hstep : ServerStreamProcessor.step s a = some s') : Usages s' (usageAfter u a) := by
  cases outcome_of_step hstep with
  | event ht => exact ht.usage hs.core h
  | start hr hst => exact h
  | readerStart hr => exact h
  | begun hr hf hslot ho => exact (h.enter hidle ho).deliver _ _
  | continued hr hf hslot => exact h.deliver _ _
  | unexpected hr hf => exact h
  | returned ho hf => exact h.releaseStream hf
  | failed ho hf => exact Usages.releaseStream (s := s.stopAsync) h hf
  | stopAsync hst => exact h

/-- **Between two connections nothing happens to a processor**, and only the end of the reader ends a connection. -/
theorem reader_ne_stopped {a : Action} (hs : Sound s) (hst : s.reader = .stopped → s.state = .stopped)
    (hstep : step s a = some s') (ha : a ≠ .start) :
    s.reader ≠ .stopped ∧
      (s'.reader = .stopped → a = .event .reader ∧ s.reader = .waitingWriter ∧ s'.state = .stopped) := by
  have howned : ∀ o, s.owned o → s.reader ≠ .stopped := fun o ho hr =>
    hs.phased.state_ne_stopped (hs.core.activeCnt_pos ho) (hst hr)
  have hwriter : s.writer ≠ .stopped → s.reader ≠ .stopped := fun hw hr => hw (hs.phased.quiet (hst hr)).2.1
  cases outcome_of_step hstep with
  | @event e _ ht =>
    cases hown : e.owner with
    | some o =>
      obtain ⟨ho, ps, f, pool, queue, -, -, rfl⟩ := ht.ownerFrame hs.core.fiberOk hown
      exact ⟨howned o ho, fun hr => absurd hr (howned o ho)⟩
    | none =>
      cases ht.system hown with
      | readerAcquire hr | readerPass hr | readerDisconnect hr | readerBlock hr | readerDisconnectLate hr
      | readerLoopEnd hr | readerStreamsStopped hr | readerFail hr =>
        exact ⟨by simp [hr], nofun⟩
      | readerWriterStopped hr he => exact ⟨by simp [hr], fun _ => ⟨rfl, hr, rfl⟩⟩
      | writerEnd hw hq =>
        have hne := hwriter (by rcases hw with hw | hw <;> simp [hw])
        exact ⟨hne, fun hr => absurd hr hne⟩
      | writerGet hw | writerSkip hw | writeOk hw | writeFail hw | flushOk hw | flushFail hw =>
        have hne := hwriter (by simp [hw])
        exact ⟨hne, fun hr => absurd hr hne⟩
  | start hr hs' => exact absurd rfl ha
  | readerStart hr => exact ⟨by simp [hr], nofun⟩
  | begun hr | continued hr | unexpected hr => exact ⟨by simp [hr], nofun⟩
  | returned ho hf =>
    refine ⟨howned _ ho, fun hr => absurd ?_ (howned _ ho)⟩
    rwa [StreamProcessor.releaseStream_eq] at hr
  | failed ho hf =>
    refine ⟨howned _ ho, fun hr => absurd ?_ (howned _ ho)⟩
    rwa [StreamProcessor.releaseStream_eq] at hr
  | stopAsync hs' => exact ⟨fun hr => hs' (hst hr), fun hr => absurd (hst hr) hs'⟩

end ServerStreamProcessor

namespace Session

variable {x x' : Session} {c : Call}

structure Safe (x : Session) : Prop where
  sound : ServerStreamProcessor.Sound x.server.core
  neat : x.server.core.Neat
  idle : ServerStreamProcessor.Idle x.server.core x.usage
  usages : ServerStreamProcessor.Usages x.server.core x.usage
  stopped : x.server.core.reader = .stopped → x.server.core.state = .stopped ∧ x.server.streamHandler = none ∧
    x.server.serviceCtx = none ∧ x.server.stream = none
  started : x.server.core.reader ≠ .stopped → x.server.streamHandler ≠ none ∧ x.server.stream ≠ none

theorem safe_create : create.Safe :=
  ⟨ServerStreamProcessor.sound_create, ServerStreamProcessor.neat_create, fun _ _ => ⟨rfl, rfl, rfl, rfl⟩, fun _ => rfl,
    fun _ => ⟨rfl, rfl, rfl, rfl⟩, fun h => absurd rfl h⟩

theorem Safe.reader_ne_stopped (h : x.Safe) {a : ServerStreamProcessor.Action} {core : StreamProcessor}
    (hcore : ServerStreamProcessor.step x.server.core a = some core) (ha : a ≠ .start) :
    x.server.core.reader ≠ .stopped ∧ (core.reader = .stopped →
      a = .event .reader ∧ x.server.core.reader = .waitingWriter ∧ core.state = .stopped) :=
  ServerStreamProcessor.reader_ne_stopped h.sound (fun hr => (h.stopped hr).1) hcore ha

/-- The pointers are there exactly during a connection. -/
theorem Safe.pointers (h : x.Safe) (hd : Disciplined x c) {a : ServerStreamProcessor.Action} {core : StreamProcessor}
    (ha : c.action = some a) (hcore : ServerStreamProcessor.step x.server.core a = some core) :
    let s := x.server.pointersAfter c core
    s.core = core ∧
      (core.reader = .stopped → core.state = .stopped ∧ s.streamHandler = none ∧ s.serviceCtx = none ∧ s.stream = none) ∧
      (core.reader ≠ .stopped → s.streamHandler ≠ none ∧ s.stream ≠ none) := by
  have hother : a ≠ .start → x.server.pointersAfter c core =
      if core.reader = .stopped then ⟨core, none, none, none⟩ else { x.server with core := core } := fun hne => by
    cases c with
    | start => exact absurd (Option.some.inj ha).symm hne
    | _ => rfl
  by_cases hne : a = .start
  · subst hne
    cases c with
    | start streamHandler serviceCtx stream =>
      refine ⟨rfl, fun hr => ?_, fun _ => hd⟩
      simp only [ServerStreamProcessor.step, ServerStreamProcessor.start] at hcore
      split at hcore
      · rw [← Option.some.inj hcore] at hr
        cases hr
      · cases hcore
    | _ => cases ha
  · obtain ⟨hactive, hend⟩ := h.reader_ne_stopped hcore hne
    rw [hother hne]
    split
    · rename_i hr
      exact ⟨rfl, fun _ => ⟨(hend hr).2.2, rfl, rfl, rfl⟩, fun hne => absurd hr hne⟩
    · rename_i hr
      exact ⟨rfl, fun hr' => absurd hr' hr, fun _ => h.started hactive⟩

theorem Safe.step (h : x.Safe) (hd : Disciplined x c) (hstep : x.unchecked c = some x') : x'.Safe := by
  obtain ⟨server, hplain, rfl⟩ := Option.map_eq_some_iff.1 hstep
  unfold ServerProcessor.plain at hplain
  cases ha : c.action with
  | none =>
    rw [ha] at hplain
    dsimp only at hplain
    split at hplain
    · cases hplain
      exact h
    · cases hplain
  | some a =>
    rw [ha] at hplain
    obtain ⟨core, hcore, rfl⟩ := Option.map_eq_some_iff.1 hplain
    obtain ⟨heq, hstopped, hstarted⟩ := h.pointers hd ha hcore
    refine ⟨?_, ?_, ?_, ?_, ?_, ?_⟩
    all_goals dsimp only
    all_goals rw [heq]
    · exact h.sound.step hcore
    · exact ServerStreamProcessor.neat_step h.neat hcore
    · exact h.idle.step h.sound hcore
    · exact h.usages.step h.idle h.sound hcore
    · exact hstopped
    · exact hstarted

end Session

/-! ## The assertions hold -/

namespace StreamProcessor

variable {s : StreamProcessor}

/-- **The `NULL` is queued when no stream is active**, and nothing is queued after it. -/
theorem Phased.draining (h : s.Phased) (hnone : none ∈ s.writerQueue) :
    s.state = .stopInitiated ∧ s.activeCnt = 0 ∧ ∃ q : List Packet, s.writerQueue = q.map some ++ [none] := by
  have hp := h.phaseOk
  unfold PhaseOk at hp
  split at hp
  · rw [hp.2.2.1] at hnone
    cases hnone
  · rw [hp.2.2.1] at hnone
    cases hnone
  · exact absurd hnone hp.2.2.1
  · exact absurd hnone hp.2.2.1
  · exact absurd hnone hp.2.2.1
  · exact absurd hnone hp.2.2.1
  · exact absurd hnone hp.2.2.1
  · obtain ⟨hst, hcnt, ⟨-, -, hq⟩ | ⟨-, -, hq⟩⟩ := hp
    · exact ⟨hst, hcnt, hq⟩
    · rw [hq] at hnone
      cases hnone

theorem Phased.eq_nil_of_none_cons (h : s.Phased) {queue : List (Option Packet)} (hq : s.writerQueue = none :: queue) :
    queue = [] := by
  obtain ⟨-, -, q, heq⟩ := h.draining (by rw [hq]; exact List.mem_cons_self)
  rw [hq] at heq
  cases q with
  | nil => simpa using heq
  | cons p q => cases heq

theorem card_requestIds_le (ids : Finset RequestId) : ids.card ≤ maxRequestStreamsCnt := by
  have hle := Finset.card_le_univ ids
  rw [Fintype.card_fin] at hle
  exact hle

theorem Sound.activeCnt_le (h : s.Sound) : s.activeCnt ≤ maxRequestStreamsCnt := by
  rw [h.activeCnt]
  exact card_requestIds_le _

/-- **While a slot is free there is a stream for it.** -/
theorem Sound.exists_not_owned (h : s.Sound) {r : RequestId} (hslot : s.active r = none) :
    s.activeCnt + 1 ≤ maxRequestStreamsCnt ∧ ∃ o, ¬ s.owned o := by
  have hnot : r ∉ activeIds s.active := by simp [mem_activeIds, hslot]
  have hcard : (activeIds s.active).card + 1 ≤ maxRequestStreamsCnt := by
    rw [← Finset.card_insert_of_notMem hnot]
    exact card_requestIds_le _
  rw [← h.activeCnt] at hcard
  refine ⟨hcard, ?_⟩
  by_contra hall
  push Not at hall
  have hle := h.card_owned_le
  rw [Finset.filter_true_of_mem (fun o _ => hall o), Finset.card_univ, Fintype.card_fin] at hle
  exact absurd hcard (by simp [maxRequestStreamsCnt]; omega)

end StreamProcessor

namespace ServerProcessor

variable {s : ServerProcessor} {p : Packet}

theorem stopAsync_eq (hst : s.core.state ≠ .stopped) (hstream : s.stream ≠ none) :
    s.stopAsync = .ok { s with core := s.core.stopAsync } := by
  rw [stopAsync, ffAssert_of hst, ok_bind, StreamProcessor.stopAsync_eq hst]
  split
  · rw [ffAssert_of hstream, ok_bind]
  · rename_i hw
    have hinit : s.core.state = .stopInitiated := by
      cases h : s.core.state with
      | working => exact absurd h hw
      | stopInitiated => rfl
      | stopped => exact absurd h hst
    rw [ffAssert_of hinit, ok_bind, ← hinit]

theorem state_stopAsync (hst : s.core.state ≠ .stopped) : s.core.stopAsync.state = .stopInitiated := by
  rw [StreamProcessor.stopAsync_eq hst]

theorem abandon_eq (hst : s.core.state ≠ .stopped) (hstream : s.stream ≠ none) (p : Packet) :
    s.abandon p = .ok { s with core := s.core.abandon p } := by
  have hcore : (s.core.releasePacket p).state ≠ .stopped := hst
  rw [abandon, Asserting.releasePacket_eq hst, ok_bind,
    stopAsync_eq (s := { s with core := s.core.releasePacket p }) hcore hstream, ok_bind,
    ffAssert_of (state_stopAsync (s := { s with core := s.core.releasePacket p }) hcore), ok_bind]
  rfl

theorem skip_eq (hst : s.core.state ≠ .stopped) (hstream : s.stream ≠ none) :
    s.skip = .ok { s with core := { s.core.stopAsync with writer := .skipping } } := by
  rw [skip, stopAsync_eq hst hstream, ok_bind, ffAssert_of (state_stopAsync hst), ok_bind]

theorem deliver_eq {s : StreamProcessor} (hst : s.state ≠ .stopped) (o : StreamNo) (p : Packet) :
    deliver s o p = .ok (s.deliver o p) := by
  rw [deliver, ffAssert_of hst, ok_bind]

end ServerProcessor

theorem Asserting.acquireRequestStream_eq {s : StreamProcessor} (hs : s.Sound) (hst : s.state ≠ .stopped)
    {r : RequestId} (hslot : s.active r = none) {o : StreamNo}
    (hidle : ¬ s.owned o → (s.streams o).currentReadPacket = none ∧ (s.streams o).currentWritePacket = none ∧
      (s.streams o).requestId = 0) :
    acquireRequestStream s r o = .ok (if s.owned o then none else some (s.enter r o)) := by
  obtain ⟨hcnt, hfree⟩ := hs.exists_not_owned hslot
  rw [acquireRequestStream, ffAssert_of hs.activeCnt_le, ok_bind, ffAssert_of hst, ok_bind, if_neg (not_forall.2 hfree)]
  by_cases ho : s.owned o
  · rw [if_pos ho, if_pos ho]
  · obtain ⟨hr, hw, hid⟩ := hidle ho
    rw [if_neg ho, if_neg ho, ok_bind, ffAssert_of (by decide), ok_bind, ffAssert_of hslot, ok_bind,
      initialise_eq hr hw hid, ok_bind, ffAssert_of hcnt, ok_bind]

namespace Session

variable {x x' : Session} {c : Call}

namespace Safe

theorem ready (h : x.Safe) : Asserting.Ready x.server.core :=
  ⟨h.neat, fun _ ho => h.sound.phased.state_ne_stopped (h.sound.core.activeCnt_pos ho)⟩

theorem state_of_reader (h : x.Safe) (hr : x.server.core.reader ≠ .stopped) : x.server.core.state ≠ .stopped :=
  fun hst => hr (h.sound.phased.quiet hst).1

theorem state_of_writer (h : x.Safe) (hw : x.server.core.writer ≠ .stopped) : x.server.core.state ≠ .stopped :=
  fun hst => hw (h.sound.phased.quiet hst).2.1

theorem stream_of_state (h : x.Safe) (hst : x.server.core.state ≠ .stopped) :
    x.server.streamHandler ≠ none ∧ x.server.stream ≠ none :=
  h.started fun hr => hst (h.stopped hr).1

theorem plain_eq (h : x.Safe) {a : ServerStreamProcessor.Action} (ha : c.action = some a) (hne : a ≠ .start)
    (hr : a = .event .reader → x.server.core.reader ≠ .waitingWriter) :
    x.server.plain c = x.server.onCore (ServerStreamProcessor.step x.server.core a) := by
  unfold ServerProcessor.plain ServerProcessor.onCore
  rw [ha]
  dsimp only
  cases hcore : ServerStreamProcessor.step x.server.core a with
  | none => rfl
  | some core =>
    have hreader : core.reader ≠ .stopped := fun hstopped => by
      obtain ⟨ha', hw, -⟩ := (h.reader_ne_stopped hcore hne).2 hstopped
      exact hr ha' hw
    have hother : x.server.pointersAfter c core =
        if core.reader = .stopped then ⟨core, none, none, none⟩ else { x.server with core := core } := by
      cases c with
      | start => exact absurd (Option.some.inj ha).symm hne
      | _ => rfl
    rw [Option.map_some, Option.map_some, hother, if_neg hreader]

theorem writerStep_eq (h : x.Safe) : ServerProcessor.writerStep x.server.core = .ok x.server.core.writerStep := by
  have hphased := h.sound.phased
  unfold ServerProcessor.writerStep StreamProcessor.writerStep
  cases hw : x.server.core.writer with
  | stopped | flushing | writing p => rfl
  | getting =>
    cases hq : x.server.core.writerQueue with
    | nil => rfl
    | cons head queue =>
      cases head with
      | none =>
        obtain ⟨hst, -, -⟩ := hphased.draining (by rw [hq]; exact List.mem_cons_self)
        dsimp only
        rw [ffAssert_of hst, ok_bind, ffAssert_of (hphased.eq_nil_of_none_cons hq), ok_bind]
      | some p =>
        dsimp only
        rw [Asserting.writeToStream_eq (h.neat.queued p (by rw [hq]; exact List.mem_cons_self)), ok_bind]
  | skipping =>
    cases hq : x.server.core.writerQueue with
    | nil => rfl
    | cons head queue =>
      cases head with
      | none =>
        dsimp only
        rw [ffAssert_of (hphased.eq_nil_of_none_cons hq), ok_bind]
      | some p =>
        dsimp only
        rw [Asserting.releasePacket_eq, ok_bind]
        exact h.state_of_writer (by simp [hw])

theorem writerResult_eq (h : x.Safe) (result : FfResult) :
    x.server.writerResult result = .ok (x.server.onCore (x.server.core.writerResult result)) := by
  unfold ServerProcessor.writerResult StreamProcessor.writerResult
  cases hw : x.server.core.writer with
  | stopped | getting | skipping => cases result <;> rfl
  | writing p =>
    have hst := h.state_of_writer (by simp [hw])
    cases result with
    | success =>
      dsimp only
      rw [Asserting.releasePacket_eq hst, ok_bind]
      rfl
    | failure =>
      dsimp only
      rw [Asserting.releasePacket_eq hst, ok_bind,
        ServerProcessor.skip_eq (s := { x.server with core := x.server.core.releasePacket p }) hst
          (h.stream_of_state hst).2, ok_bind]
      rfl
  | flushing =>
    have hst := h.state_of_writer (by simp [hw])
    cases result with
    | success => rfl
    | failure =>
      dsimp only
      rw [ServerProcessor.skip_eq hst (h.stream_of_state hst).2, ok_bind]
      rfl

theorem readerFail_eq (h : x.Safe) : x.server.readerFail = .ok (x.server.onCore x.server.core.readerFail) := by
  unfold ServerProcessor.readerFail StreamProcessor.readerFail
  cases hr : x.server.core.reader with
  | reading p =>
    have hst := h.state_of_reader (by simp [hr])
    dsimp only
    rw [ServerProcessor.abandon_eq hst (h.stream_of_state hst).2, ok_bind]
    rfl
  | _ => rfl

theorem disconnect_eq {s : StreamProcessor} (hst : s.state ≠ .stopped) (i : Nat) (o : StreamNo) :
    ServerProcessor.disconnect s i o = .ok (match s.acquirePacket with
      | some (p, s) => { s.pushDisconnect o p with reader := .disconnecting (i + 1) }
      | none => { s with reader := .disconnectAcquiring i o }) := by
  rw [ServerProcessor.disconnect, ffAssert_of (by decide), ok_bind, Asserting.acquirePacket_eq hst, ok_bind]
  cases s.acquirePacket with
  | none => rfl
  | some acquired => rfl

theorem readerStep_eq (h : x.Safe) (hne : x.server.core.reader ≠ .waitingWriter) :
    x.server.readerStep = .ok (x.server.onCore x.server.core.readerStep) := by
  unfold ServerProcessor.readerStep StreamProcessor.readerStep
  cases hr : x.server.core.reader with
  | stopped | starting | reading p => rfl
  | waitingWriter => exact absurd hr hne
  | acquiring =>
    have hst := h.state_of_reader (by simp [hr])
    dsimp only
    rw [Asserting.acquirePacket_eq hst, ok_bind]
    cases hp : x.server.core.acquirePacket with
    | none => rfl
    | some acquired =>
      obtain ⟨p, t⟩ := acquired
      rw [ServerProcessor.readerAcquired, Asserting.readFromStream_eq (h.neat.acquirePacket hp).1, ok_bind, ok_bind]
      rfl
  | disconnecting i =>
    have hst := h.state_of_reader (by simp [hr])
    dsimp only
    split
    · rename_i hi
      cases hslot : x.server.core.active ⟨i, hi⟩ with
      | none => rfl
      | some o =>
        dsimp only
        rw [disconnect_eq hst, ok_bind]
        cases x.server.core.acquirePacket with
        | none => rfl
        | some acquired => rfl
    · rfl
  | disconnectAcquiring i o =>
    have hst := h.state_of_reader (by simp [hr])
    dsimp only
    rw [Asserting.acquirePacket_eq hst, ok_bind]
  | waitingStreams =>
    have hp := h.sound.phased.phaseOk
    simp only [StreamProcessor.PhaseOk, hr] at hp
    dsimp only
    split
    · rename_i he
      rw [ffAssert_of (h.sound.phased.streamsStopEvent he), ok_bind, ffAssert_of hp.1, ok_bind]
      rfl
    · rfl

theorem event_eq (h : x.Safe) {e : StreamProcessor.Event} (hd : Disciplined x (.event e))
    (hr : e = .reader → x.server.core.reader ≠ .waitingWriter) :
    x.server.event e = .ok (x.server.onCore (x.server.core.event e)) := by
  have hready := h.ready
  have htype : ∀ o, x.server.core.fibers o = .running →
      x.server.core.writeType o = (x.server.core.streams o).currentWritePacket.map Packet.type := fun o hf =>
    StreamProcessor.writeType_eq (by simp [hf])
  cases e with
  | read o len =>
    rw [ServerProcessor.event, Asserting.read_eq hready, ok_bind]
    rfl
  | get o =>
    rw [ServerProcessor.event, Asserting.get_eq hready, ok_bind]
    rfl
  | timeout o => rfl
  | write o buf =>
    rw [ServerProcessor.event, Asserting.write_eq hready buf, ok_bind]
    · rfl
    · intro hf p hp
      have husage := h.usages o
      rw [htype o hf, Option.mem_def.1 hp] at husage
      have hne : x.usage o ≠ .flushed := hd
      cases hu : x.usage o with
      | fresh =>
        rw [hu] at husage
        cases husage
      | wrote =>
        rw [hu] at husage
        simpa [UsageOk] using husage
      | flushed => exact absurd hu hne
  | flush o =>
    rw [ServerProcessor.event, Asserting.flush_eq hready, ok_bind]
    · rfl
    · intro ho hf
      have husage := h.usages o
      have hwrote : x.usage o = .wrote := hd
      rw [htype o hf, hwrote] at husage
      cases hc : (x.server.core.streams o).currentWritePacket with
      | none => simp [UsageOk, hc] at husage
      | some p => exact ⟨p, rfl, by simpa [UsageOk, hc] using husage⟩
  | acquire o =>
    rw [ServerProcessor.event, Asserting.acquire_eq hready, ok_bind]
    rfl
  | reader => exact h.readerStep_eq (hr rfl)
  | readerFail => exact h.readerFail_eq
  | writer =>
    rw [ServerProcessor.event, h.writerStep_eq, ok_bind]
    rfl
  | writerResult result => exact h.writerResult_eq result

theorem receive_eq (h : x.Safe) (f : Frame) (o : StreamNo) :
    x.server.receive f o = .ok (x.server.onCore (ServerStreamProcessor.receive x.server.core f o)) := by
  unfold ServerProcessor.receive ServerStreamProcessor.receive
  cases hr : x.server.core.reader with
  | reading p =>
    have hst := h.state_of_reader (by simp [hr])
    have hstream := (h.stream_of_state hst).2
    dsimp only
    split
    · cases hfirst : f.type.isFirst with
      | true =>
        cases hslot : x.server.core.active f.requestId with
        | some o' =>
          dsimp only
          rw [ServerProcessor.abandon_eq hst hstream, ok_bind]
          rfl
        | none =>
          dsimp only
          have hidle := h.idle o
          rw [Asserting.acquireRequestStream_eq h.sound.core hst hslot
            (fun ho => ⟨(hidle ho).1, (hidle ho).2.1, (hidle ho).2.2.1⟩), ok_bind]
          by_cases ho : x.server.core.owned o
          · rw [if_pos ho, if_pos ho]
            rfl
          · rw [if_neg ho, if_neg ho]
            dsimp only
            rw [ServerProcessor.deliver_eq, ok_bind]
            · rfl
            · exact hst
      | false =>
        cases hslot : x.server.core.active f.requestId with
        | some o' =>
          dsimp only
          rw [ServerProcessor.deliver_eq hst, ok_bind]
          rfl
        | none =>
          dsimp only
          rw [ServerProcessor.abandon_eq hst hstream, ok_bind]
          rfl
    · rfl
  | _ => rfl

theorem releaseStream_eq (h : x.Safe) {core : StreamProcessor} {o : StreamNo} (ho : x.server.core.owned o)
    {state : ProcessorState} (hstate : state ≠ .stopped) (hcore : core = { x.server.core with state := state }) :
    Asserting.releaseStream core o = .ok (core.releaseStream o) := by
  subst hcore
  exact Asserting.releaseStream_eq (h.neat.setState _) hstate (h.sound.core.activeCnt_pos ho) h.sound.core.activeCnt_le ho

theorem handlerReturn_eq (h : x.Safe) (o : StreamNo) (result : FfResult) :
    x.server.handlerReturn o result =
      .ok (x.server.onCore (ServerStreamProcessor.handlerReturn x.server.core o result)) := by
  unfold ServerProcessor.handlerReturn ServerStreamProcessor.handlerReturn
  split
  · rename_i hg
    have hst := h.ready.state o hg.1
    cases result with
    | success =>
      dsimp only
      rw [h.releaseStream_eq hg.1 hst rfl, ok_bind]
      rfl
    | failure =>
      dsimp only
      rw [ServerProcessor.stopAsync_eq hst (h.stream_of_state hst).2, ok_bind, StreamProcessor.stopAsync_eq hst,
        h.releaseStream_eq hg.1 (by decide) rfl, ok_bind]
      rfl
  · rfl

theorem delete_eq (h : x.Safe) : x.server.delete = .ok none := by
  unfold ServerProcessor.delete
  split
  · rename_i hr
    obtain ⟨hst, hhandler, hctx, hstream⟩ := h.stopped hr
    obtain ⟨-, -, -, -, hcnt⟩ := h.sound.phased.quiet hst
    have hpackets : ∀ ps : List Packet, (∀ p ∈ ps, p.Blank) → ps.forM Asserting.deletePacket = .ok () := by
      intro ps hps
      induction ps with
      | nil => rfl
      | cons p ps ih =>
        rw [List.forM, Asserting.deletePacket_eq (hps p List.mem_cons_self), ok_bind]
        exact ih fun q hq => hps q (List.mem_cons_of_mem _ hq)
    have hstreams : ∀ os : List StreamNo,
        os.forM (fun o => (Asserting.initialise (x.server.core.streams o) 0).map fun _ => ()) = .ok () := by
      intro os
      induction os with
      | nil => rfl
      | cons o os ih =>
        have ho : ¬ x.server.core.owned o := fun ho => by
          have := h.sound.core.activeCnt_pos ho
          omega
        obtain ⟨hread, hwrite, hid, -⟩ := h.idle o ho
        rw [List.forM, Asserting.initialise_eq hread hwrite hid]
        exact ih
    rw [ffAssert_of hhandler, ok_bind, ffAssert_of hctx, ok_bind, ffAssert_of hstream, ok_bind, ffAssert_of hcnt, ok_bind,
      ffAssert_of hst, ok_bind, hpackets _ h.neat.free, ok_bind, hstreams, ok_bind]
  · rfl

/-- **With or without assertions, a processor does the same.** -/
theorem call_eq (h : x.Safe) (hd : Disciplined x c) : x.server.call c = .ok (x.server.plain c) := by
  cases c with
  | event e =>
    by_cases hr : e = .reader ∧ x.server.core.reader = .waitingWriter
    · obtain ⟨rfl, hw⟩ := hr
      simp only [ServerProcessor.call, ServerProcessor.event, ServerProcessor.readerStep, ServerProcessor.plain,
        Call.action, ServerStreamProcessor.step, StreamProcessor.event, StreamProcessor.readerStep, hw]
      split
      · rfl
      · rfl
    · have hne : ServerStreamProcessor.Action.event e = .event .reader → x.server.core.reader ≠ .waitingWriter :=
        fun he hw => hr ⟨by injection he, hw⟩
      rw [h.plain_eq rfl (by simp) hne]
      exact h.event_eq hd (fun he => hne (by rw [he]))
  | start streamHandler serviceCtx stream =>
    simp only [ServerProcessor.call, ServerProcessor.start, ServerProcessor.plain, Call.action,
      ServerStreamProcessor.step, ServerStreamProcessor.start]
    by_cases hr : x.server.core.reader = .stopped
    · obtain ⟨hst, hhandler, hctx, hstream⟩ := h.stopped hr
      rw [if_pos hr, if_pos ⟨hr, hst⟩, ffAssert_of hd.1, ok_bind, ffAssert_of hd.2, ok_bind, ffAssert_of hhandler, ok_bind,
        ffAssert_of hctx, ok_bind, ffAssert_of hstream, ok_bind, ffAssert_of hst, ok_bind]
      rfl
    · rw [if_neg hr, if_neg (fun hg => hr hg.1)]
      rfl
  | readerStart =>
    rw [h.plain_eq rfl (by simp) (by simp)]
    simp only [ServerProcessor.call, ServerProcessor.readerStart, ServerStreamProcessor.step,
      ServerStreamProcessor.readerStart]
    split
    · rename_i hr
      have hp := h.sound.phased.phaseOk
      simp only [StreamProcessor.PhaseOk, hr] at hp
      obtain ⟨hst, -, -, -, hcnt⟩ := hp
      obtain ⟨hhandler, hstream⟩ := h.stream_of_state hst
      rw [ffAssert_of hcnt, ok_bind, ffAssert_of hhandler, ok_bind, ffAssert_of hstream, ok_bind, ffAssert_of hst, ok_bind]
      rfl
    · rfl
  | writerStart =>
    simp only [ServerProcessor.call, ServerProcessor.writerStart, ServerProcessor.plain, Call.action]
    by_cases hw : x.server.core.writer = .getting
    · have hst := h.state_of_writer (by simp [hw])
      rw [if_pos hw, if_pos (show x.server.Starts .writerStart from hw), ffAssert_of (h.stream_of_state hst).2, ok_bind,
        ffAssert_of hst, ok_bind]
    · rw [if_neg hw, if_neg (show ¬ x.server.Starts .writerStart from hw)]
  | receive f o =>
    rw [h.plain_eq rfl (by simp) (by simp)]
    exact h.receive_eq f o
  | processRequest o =>
    simp only [ServerProcessor.call, ServerProcessor.processRequest, ServerProcessor.plain, Call.action]
    by_cases hg : x.server.core.owned o ∧ x.server.core.fibers o = .running
    · rw [if_pos hg, if_pos (show x.server.Starts (.processRequest o) from hg),
        ffAssert_of (h.stream_of_state (h.ready.state o hg.1)).1, ok_bind]
    · rw [if_neg hg, if_neg (show ¬ x.server.Starts (.processRequest o) from hg)]
  | handlerReturn o result =>
    rw [h.plain_eq rfl (by simp) (by simp)]
    exact h.handlerReturn_eq o result
  | stopAsync =>
    have hst := h.state_of_reader hd
    rw [h.plain_eq rfl (by simp) (by simp), ServerProcessor.call,
      ServerProcessor.stopAsync_eq hst (h.stream_of_state hst).2, ok_bind]
    simp [ServerStreamProcessor.step, hst, ServerProcessor.onCore]
  | delete => exact h.delete_eq

end Safe

/-- **No assertion of the server fails**, nor does its pool of request streams ever run dry, whatever the peer sends,
wherever the connection breaks and in whatever order the fibers run: with assertions the processor does what it does
without.  The terminating `NULL` is the last in the writer queue, and a stopped processor has no active request. -/
theorem assertions_hold (cs : List Call) (x : Session) (hd : Run.Meets unchecked Disciplined create cs)
    (hrun : Run.exec unchecked create cs = some x) :
    (∀ c, Disciplined x c → x.checked c = .ok (x.unchecked c)) ∧
    (∀ r, x.server.core.active r = none → ∃ o, ¬ x.server.core.owned o) ∧
    (none ∈ x.server.core.writerQueue → ∃ q : List Packet, x.server.core.writerQueue = q.map some ++ [none]) ∧
    (x.server.core.state = .stopped → x.server.core.activeCnt = 0 ∧ x.server.core.reader = .stopped) := by
  have h : x.Safe := Run.invariant (fun _ _ _ hs hC hstep => hs.step hC hstep) cs safe_create hd hrun
  refine ⟨fun c hc => ?_, fun r hslot => ?_, fun hnone => ?_, fun hst => ?_⟩
  · rw [checked, h.call_eq hc, ok_bind]
    rfl
  · exact (h.sound.core.exists_not_owned hslot).2
  · exact (h.sound.phased.draining hnone).2.2
  · obtain ⟨hr, -, -, -, hcnt⟩ := h.sound.phased.quiet hst
    exact ⟨hcnt, hr⟩

/-- A request of one byte comes, and its handler reads it and starts its response. -/
def answered : List Call :=
  [.start (some 1) none (some 2), .readerStart, .event .reader, .receive ⟨.single, 0, [7]⟩ 0, .event (.read 0 1),
    .event (.get 0), .event (.write 0 [1])]

theorem assertions_hold_answered : ∃ x, Run.Meets unchecked Disciplined create answered ∧
    Run.exec unchecked create answered = some x ∧ Disciplined x (.event (.flush 0)) ∧
    x.checked (.event (.flush 0)) = .ok (x.unchecked (.event (.flush 0))) := by
  have hmeets : Run.Meets unchecked Disciplined create answered :=
    Run.meets_cons_of ⟨nofun, nofun⟩ rfl (Run.meets_cons_of trivial rfl (Run.meets_cons_of trivial rfl
      (Run.meets_cons_of trivial rfl (Run.meets_cons_of trivial rfl (Run.meets_cons_of trivial rfl
        (Run.meets_cons_of (show Usage.fresh ≠ .flushed by decide) rfl trivial))))))
  exact ⟨_, hmeets, rfl, rfl, (assertions_hold answered _ hmeets rfl).1 (.event (.flush 0)) rfl⟩

end Session
end Mrpc
