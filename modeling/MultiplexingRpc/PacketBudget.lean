import MultiplexingRpc.IdleStreams
/-!
# PacketBudget — how many packets the client needs

A request stream holds on to up to two packets while its owner waits for more of the response: the packet `flush` took
for the next message, and the last packet it read, which is released only when the next one comes.  With all
`maxRequestStreamsCnt` streams in the middle of a response that is the whole pool, and the reader needs one more.
-/
namespace Mrpc

/-- The response is neither yet to begin nor complete, by the types of its packets so far. -/
def midway (l : List PacketType) : Bool := l.getLast?.any fun t => !t.isLast

/-- A packet of type `t` may come next. -/
def Continues (l : List PacketType) (t : PacketType) : Prop :=
  match l.getLast? with
  | none => t.isFirst = true
  | some u => u.isLast = false ∧ t.isFirst = false

/-- Only the first packet is of a first type. -/
def TailOk (l : List PacketType) : Prop := ∀ t ∈ l.tail, t.isFirst = false

/-- The types of the packets received, from the one being read. -/
def PacketStream.types (ps : PacketStream) : List PacketType :=
  (ps.currentReadPacket.toList ++ ps.readerQueue).map Packet.type

theorem TailOk.tail {l : List PacketType} (h : TailOk l) : TailOk l.tail :=
  fun t ht => h t (List.mem_of_mem_tail ht)

theorem TailOk.push {l : List PacketType} (h : TailOk l) {t : PacketType} (ht : l = [] ∨ t.isFirst = false) :
    TailOk (l ++ [t]) := by
  cases l with
  | nil => simp [TailOk]
  | cons u l =>
    intro v hv
    rw [List.cons_append, List.tail_cons, List.mem_append, List.mem_singleton] at hv
    rcases hv with hv | rfl
    · exact h v hv
    · exact ht.resolve_left (by simp)

theorem midway_of_tail {l : List PacketType} (h : midway l.tail = true) : midway l = true := by
  cases l with
  | nil => exact h
  | cons t l =>
    cases l with
    | nil => cases h
    | cons u l => simpa [midway] using h

@[simp] theorem midway_push (l : List PacketType) (t : PacketType) : midway (l ++ [t]) = !t.isLast := by
  simp [midway]

theorem Continues.push {l : List PacketType} {t : PacketType} (h : Continues l t) : l = [] ∨ t.isFirst = false := by
  unfold Continues at h
  split at h
  · rename_i hl
    exact Or.inl (List.getLast?_eq_none_iff.1 hl)
  · exact Or.inr h.2

/-- **A packet that does not begin a response of several packets** comes in the middle of one, or completes it. -/
theorem Continues.midway {l : List PacketType} {t : PacketType} (h : Continues l t) (ht : t ≠ .start)
    (hlast : t.isLast = false) : midway l = true := by
  unfold Continues at h
  split at h
  · cases t <;> simp_all [PacketType.isFirst, PacketType.isLast]
  · rename_i u hu
    simp [Mrpc.midway, hu, h.1]

namespace PacketStream

theorem types_read (ps : PacketStream) (len : Nat) : (ps.read len).1.types = ps.types := by
  rcases ps.read_cases len with ⟨-, heq⟩ | ⟨current, hc, heq⟩
  · rw [heq]
  · rw [heq]
    simp [types, hc]

/-- **A read that takes a packet drops one from the front**, or none. -/
theorem types_readNext {ps ps' : PacketStream} {len : Nat} {buf : List UInt8} {released : Option Packet}
    {outcome : ReadOutcome} (hok : TailOk ps.types) (h : ps.readNext len buf = some (released, ps', outcome)) :
    ps'.types = ps.types ∨ ps'.types = ps.types.tail := by
  obtain ⟨p, queue, hq, ⟨-, -, rfl, -⟩ | ⟨hfirst, -, rfl, -⟩⟩ := readNext_cases h
  · cases hc : ps.currentReadPacket with
    | none => exact Or.inl (by simp [types, hq, hc])
    | some current => exact Or.inr (by simp [types, hq, hc])
  · cases hc : ps.currentReadPacket with
    | none => exact Or.inr (by simp [types, hq, hc])
    | some current =>
      -- a packet of a first type would be out of place
      have := hok p.type (by simp [types, hq, hc])
      rw [hfirst, hc] at this
      cases this

end PacketStream

namespace StreamProcessor

variable {s s' : StreamProcessor} {o : StreamNo}

theorem types_pushPacket (s : StreamProcessor) (o : StreamNo) (p : Packet) (i : StreamNo) :
    ((s.pushPacket o p).streams i).types = if i = o then (s.streams i).types ++ [p.type] else (s.streams i).types := by
  by_cases hi : i = o
  · subst hi
    simp [pushPacket, setStream, PacketStream.pushPacket, PacketStream.types]
  · simp [pushPacket, setStream, hi]

/-- **What a turn does to the packets received on a stream**: nothing, or it drops the first, or it adds a last one. -/
theorem Turn.types {e : Event} (hs : s.Sound) (hok : ∀ o, TailOk (s.streams o).types) (ht : Turn s e s') (i : StreamNo) :
    (s'.streams i).types = (s.streams i).types ∨ (s'.streams i).types = (s.streams i).types.tail ∨
      (s'.streams i).types = (s.streams i).types ++ [.end_] := by
  have hpush : ∀ (t : StreamProcessor) (o : StreamNo) (p : Packet), t.streams = s.streams → p.type = .end_ →
      ((t.pushPacket o p).streams i).types = (s.streams i).types ∨
        ((t.pushPacket o p).streams i).types = (s.streams i).types ++ [.end_] := fun t o p hstreams hp => by
    rw [types_pushPacket, hstreams, hp]
    split
    · exact Or.inr rfl
    · exact Or.inl rfl
  cases hw : e.writesOn with
  | some o =>
    obtain ⟨-, current, f, pool, queue, -, -, rfl⟩ := ht.writeFrame hs.fiberOk hw
    left
    by_cases hi : i = o
    · subst hi
      simp [PacketStream.types]
    · simp [hi]
  | none =>
    cases ht with
    | writeFirst | writeMore | flush | acquire => cases hw
    | @read o len ho hf =>
      left
      by_cases hi : i = o
      · subst hi
        simp [setStream, setFiber, PacketStream.types_read]
      · simp [setStream, setFiber, hi]
    | @get o len buf released ps outcome ho hf hnext =>
      rw [releasePackets_eq]
      by_cases hi : i = o
      · subst hi
        simp only [setStream, setFiber, Function.update_self]
        exact (PacketStream.types_readNext (hok i) hnext).imp_right Or.inl
      · simp [setStream, setFiber, hi]
    | readerAcquire hr hp =>
      obtain ⟨pool, -, rfl⟩ := acquirePacket_eq hp
      exact Or.inl rfl
    | readerDisconnect hr hi hslot hp =>
      obtain ⟨pool, -, rfl⟩ := acquirePacket_eq hp
      exact (hpush _ _ _ rfl rfl).imp_right Or.inr
    | readerDisconnectLate hr hp =>
      obtain ⟨pool, -, rfl⟩ := acquirePacket_eq hp
      exact (hpush _ _ _ rfl rfl).imp_right Or.inr
    | _ => exact Or.inl rfl

theorem Turn.tailOk {e : Event} (hs : s.Sound) (hok : ∀ o, TailOk (s.streams o).types) (ht : Turn s e s') (i : StreamNo) :
    TailOk (s'.streams i).types := by
  rcases ht.types hs hok i with heq | heq | heq
  · exact heq ▸ hok i
  · exact heq ▸ (hok i).tail
  · exact heq ▸ (hok i).push (Or.inr rfl)

/-- **No turn of a fiber begins a response.** -/
theorem Turn.midway {e : Event} (hs : s.Sound) (hok : ∀ o, TailOk (s.streams o).types) (ht : Turn s e s') (i : StreamNo)
    (h : midway (s'.streams i).types = true) : midway (s.streams i).types = true := by
  rcases ht.types hs hok i with heq | heq | heq
  · exact heq ▸ h
  · exact midway_of_tail (heq ▸ h)
  · rw [heq, midway_push] at h
    cases h

/-- A stream nobody uses holds at most the packet of a disconnect that came too late. -/
structure Sparse (s : StreamProcessor) : Prop where
  idle : ∀ o, ¬ s.owned o → (s.streams o).packets.length ≤ 1
  awaited : ∀ o, ¬ s.owned o → s.Awaited o → (s.streams o).packets = []

theorem sparse_create : create.Sparse := ⟨fun _ _ => Nat.zero_le _, fun _ _ _ => rfl⟩

theorem Sparse.turn {e : Event} (h : s.Sparse) (hs : s.Sound) (ht : Turn s e s') : s'.Sparse := by
  refine ⟨fun o ho => ?_, fun o ho ha => ?_⟩
  · rw [ht.owned_iff hs] at ho
    rcases ht.idle_stream hs ho with heq | ⟨p, i, hr, -, heq⟩
    · rw [heq]
      exact h.idle o ho
    · have hnil := h.awaited o ho ⟨i, hr⟩
      simp only [PacketStream.packets, List.append_eq_nil_iff] at hnil
      simp [heq, PacketStream.packets, PacketStream.pushPacket, hnil]
  · rw [ht.owned_iff hs] at ho
    have haw := (ht.awaited hs ha).resolve_right ho
    rcases ht.idle_stream hs ho with heq | ⟨p, i, -, hr, -⟩
    · rw [heq]
      exact h.awaited o ho haw
    · obtain ⟨j, hj⟩ := ha
      rw [hr] at hj
      cases hj

theorem Sparse.of_streams (h : s.Sparse) (hstreams : s'.streams = s.streams) (howned : ∀ o, s'.owned o ↔ s.owned o)
    (hr : ∀ o, s'.Awaited o → s.Awaited o) : s'.Sparse := by
  refine ⟨fun o ho => ?_, fun o ho ha => ?_⟩
  · rw [hstreams]
    exact h.idle o (fun hn => ho ((howned o).2 hn))
  · rw [hstreams]
    exact h.awaited o (fun hn => ho ((howned o).2 hn)) (hr o ha)

theorem Sparse.enter (h : s.Sparse) {r : RequestId} (hslot : s.active r = none) : (s.enter r o).Sparse := by
  have hne : ∀ i, ¬ (s.enter r o).owned i → i ≠ o := fun i hi hio => hi (hio ▸ owned_enter_self s r o)
  refine ⟨fun i hi => ?_, fun i hi ha => ?_⟩
  · have hio := hne i hi
    rw [owned_enter hslot hio] at hi
    simpa [StreamProcessor.enter, hio] using h.idle i hi
  · have hio := hne i hi
    rw [owned_enter hslot hio] at hi
    simpa [StreamProcessor.enter, hio] using h.awaited i hi ha

theorem Sparse.deliver (h : s.Sparse) (ho : s.owned o) (p : Packet) : (s.deliver o p).Sparse := by
  refine ⟨fun i hi => ?_, fun i hi ⟨n, ha⟩ => by cases ha⟩
  have hio : i ≠ o := fun hio => hi (hio ▸ ho)
  simpa [StreamProcessor.deliver, pushPacket, setStream, hio] using h.idle i hi

theorem Sparse.releaseStream (h : s.Sparse) (ho : s.owned o) : (s.releaseStream o).Sparse := by
  have hcases : ∀ i, ¬ (s.releaseStream o).owned i → i = o ∨ (i ≠ o ∧ ¬ s.owned i) := fun i hi => by
    by_cases hio : i = o
    · exact Or.inl hio
    · exact Or.inr ⟨hio, by rwa [owned_releaseStream ho hio] at hi⟩
  refine ⟨fun i hi => ?_, fun i hi ha => ?_⟩
  · rw [streams_releaseStream]
    rcases hcases i hi with rfl | ⟨hio, hi⟩
    · rw [Function.update_self]
      exact Nat.zero_le _
    · rw [Function.update_of_ne hio]
      exact h.idle i hi
  · rw [streams_releaseStream]
    rcases hcases i hi with rfl | ⟨hio, hi⟩
    · rw [Function.update_self]
      rfl
    · rw [Function.update_of_ne hio]
      rw [releaseStream_eq] at ha
      exact h.awaited i hi ha

end StreamProcessor

namespace ClientStreamProcessor

open StreamProcessor (Event Turn)

variable {c c' : ClientStreamProcessor}

/-- The streams in the middle of their response. -/
def midways (c : ClientStreamProcessor) : Finset StreamNo :=
  Finset.univ.filter fun o => midway (c.core.streams o).types = true

/-- All packets are in use, and everybody waits: the reader for a free packet, the writer for a packet to send, every
active request stream for a packet of its response. -/
def Deadlocked (c : ClientStreamProcessor) : Prop :=
  c.core.packetsPool.exhausted ∧ (c.core.reader = .acquiring ∨ ∃ i o, c.core.reader = .disconnectAcquiring i o) ∧
    c.core.writer = .getting ∧ c.core.writerQueue = [] ∧
    ∀ o, c.core.owned o → (∃ len buf, c.core.fibers o = .reading len buf) ∧ (c.core.streams o).readerQueue = []

/-- Calls of the generated form read the response after they have flushed the request, and the server's packets of each
response come in order. -/
def Answered (c : ClientStreamProcessor) : Action → Prop
  | .event (.read o _) => ∃ p, (c.core.streams o).currentWritePacket = some p ∧ p.type.isLast = true
  | .receive f => ∀ o, c.core.active f.requestId = some o → Continues (c.core.streams o).types f.type
  | _ => True

/-- A response of several packets begins while fewer than 255 others are under way. -/
def Staggered (c : ClientStreamProcessor) : Action → Prop
  | .receive f => f.type = .start → (midways c).card + 1 < maxRequestStreamsCnt
  | _ => True

/-- What holds after every run with staggered responses. -/
structure Budgeted (c : ClientStreamProcessor) : Prop where
  sound : c.Sound
  tailOk : ∀ o, TailOk (c.core.streams o).types
  midways : (midways c).card < maxRequestStreamsCnt
  sparse : c.core.Sparse

theorem budgeted_create : create.Budgeted := by
  refine ⟨sound_create, (fun o t ht => nomatch ht), ?_, StreamProcessor.sparse_create⟩
  have hnone : ClientStreamProcessor.midways create = ∅ := Finset.filter_eq_empty_iff.2 fun o _ h => nomatch h
  rw [hnone]
  decide

/-- Nothing was received. -/
theorem Budgeted.of_streams (h : c.Budgeted) (hsound : c'.Sound) (hsparse : c'.core.Sparse)
    (htypes : ∀ o, (c'.core.streams o).types = (c.core.streams o).types) : c'.Budgeted := by
  refine ⟨hsound, fun o => htypes o ▸ h.tailOk o, ?_, hsparse⟩
  unfold ClientStreamProcessor.midways
  simp only [htypes]
  exact h.midways

theorem Budgeted.of_midways (h : c.Budgeted) (hsound : c'.Sound) (hsparse : c'.core.Sparse)
    (htail : ∀ o, TailOk (c'.core.streams o).types)
    (hmid : ∀ o, midway (c'.core.streams o).types = true → midway (c.core.streams o).types = true) : c'.Budgeted := by
  refine ⟨hsound, htail, Nat.lt_of_le_of_lt (Finset.card_le_card fun o ho => ?_) h.midways, hsparse⟩
  exact Finset.mem_filter.2 ⟨Finset.mem_univ o, hmid o (Finset.mem_filter.1 ho).2⟩

theorem Budgeted.deliver (h : c.Budgeted) {f : Frame} {p : Packet} {o : StreamNo} (hr : c.core.reader = .reading p)
    (hslot : c.core.active f.requestId = some o) (hcont : Continues (c.core.streams o).types f.type)
    (hstart : f.type = .start → (ClientStreamProcessor.midways c).card + 1 < maxRequestStreamsCnt) :
    ({ c with core := c.core.deliver o (p.ofFrame f) } : ClientStreamProcessor).Budgeted := by
  have htypes : ∀ i, ((c.core.deliver o (p.ofFrame f)).streams i).types =
      if i = o then (c.core.streams i).types ++ [f.type] else (c.core.streams i).types :=
    fun i => StreamProcessor.types_pushPacket c.core o (p.ofFrame f) i
  refine ⟨⟨h.sound.core.deliver hr f, h.sound.requestIds⟩, fun i => ?_, ?_,
    h.sparse.deliver (h.sound.core.owned_of_active hslot) _⟩
  · dsimp only
    rw [htypes]
    split
    · rename_i hi
      exact (h.tailOk i).push (hi ▸ hcont.push)
    · exact h.tailOk i
  · by_cases ht : f.type = .start
    · have hsub : ClientStreamProcessor.midways { c with core := c.core.deliver o (p.ofFrame f) } ⊆
          insert o (ClientStreamProcessor.midways c) := fun i hi => by
        have hmid := (Finset.mem_filter.1 hi).2
        dsimp only at hmid
        rw [htypes] at hmid
        by_cases hio : i = o
        · exact hio ▸ Finset.mem_insert_self i _
        · rw [if_neg hio] at hmid
          exact Finset.mem_insert_of_mem (Finset.mem_filter.2 ⟨Finset.mem_univ i, hmid⟩)
      calc _ ≤ _ := Finset.card_le_card hsub
        _ ≤ (ClientStreamProcessor.midways c).card + 1 := Finset.card_insert_le _ _
        _ < maxRequestStreamsCnt := hstart ht
    · refine Nat.lt_of_le_of_lt (Finset.card_le_card fun i hi => ?_) h.midways
      have hmid := (Finset.mem_filter.1 hi).2
      dsimp only at hmid
      rw [htypes] at hmid
      refine Finset.mem_filter.2 ⟨Finset.mem_univ i, ?_⟩
      split at hmid
      · rename_i hio
        rw [midway_push] at hmid
        exact hio ▸ hcont.midway ht (by simpa using hmid)
      · exact hmid

theorem Budgeted.enterStream (h : c.Budgeted) {o : StreamNo} (ho : ¬ c.core.owned o) (n : Nat) :
    ({ core := c.enterStream o, waiters := n } : ClientStreamProcessor).Budgeted := by
  refine h.of_streams ⟨(h.sound.enterStream ho).1, (h.sound.enterStream ho).2⟩ (h.sparse.enter ?_) fun i => ?_
  · rw [h.sound.requestIds]
    exact h.sound.slot_of_not_owned ho
  · by_cases hi : i = o
    · subst hi
      simp [ClientStreamProcessor.enterStream, StreamProcessor.enter, PacketStream.initialise, PacketStream.types]
    · simp [ClientStreamProcessor.enterStream, StreamProcessor.enter, hi]

theorem Budgeted.step {a : Action} (h : c.Budgeted) (hans : Answered c a) (hstag : Staggered c a)
    (hs : c.step a = some c') : c'.Budgeted := by
  have hsound := h.sound.step hs
  cases outcome_of_step hs with
  | event ht =>
    exact h.of_midways hsound (h.sparse.turn h.sound.core ht) (ht.tailOk h.sound.core h.tailOk)
      (ht.midway h.sound.core h.tailOk)
  | processNothing hr hst => exact h.of_streams hsound ⟨h.sparse.idle, h.sparse.awaited⟩ fun _ => rfl
  | process hr hst =>
    exact h.of_streams hsound ⟨h.sparse.idle, fun o _ ⟨i, hi⟩ => by cases hi⟩ fun _ => rfl
  | refused hst => exact h
  | created hst ho => exact h.enterStream ho _
  | waits hst hall => exact h.of_streams hsound h.sparse fun _ => rfl
  | woken hw ho => exact h.enterStream ho _
  | delivered hr hslot => exact h.deliver hr hslot (hans _ hslot) hstag
  | unexpected hr hslot =>
    exact h.of_streams hsound (h.sparse.turn h.sound.core (.readerFail hr)) fun _ => rfl
  | @deleted o ho hf =>
    have htypes : ∀ i, ((c.core.releaseStream o).streams i).types = [] ∨
        ((c.core.releaseStream o).streams i).types = (c.core.streams i).types := fun i => by
      rw [StreamProcessor.streams_releaseStream]
      by_cases hi : i = o
      · subst hi
        exact Or.inl (by rw [Function.update_self]; rfl)
      · exact Or.inr (by rw [Function.update_of_ne hi])
    refine h.of_midways hsound (h.sparse.releaseStream ho) (fun i => ?_) (fun i hi => ?_)
    · dsimp only
      rcases htypes i with heq | heq
      · rw [heq]
        exact fun t ht => nomatch ht
      · rw [heq]
        exact h.tailOk i
    · dsimp only at hi
      rcases htypes i with heq | heq
      · rw [heq] at hi
        cases hi
      · rwa [heq] at hi
  | stopAsync => exact h.of_streams hsound ⟨h.sparse.idle, h.sparse.awaited⟩ fun _ => rfl

/-- **A stream that waits holds one packet, and a second one in the middle of a response.** -/
theorem Budgeted.length_packets_le (h : c.Budgeted) (hd : c.Deadlocked) (o : StreamNo) :
    (c.core.streams o).packets.length ≤ 1 + if midway (c.core.streams o).types = true then 1 else 0 := by
  by_cases ho : c.core.owned o
  · obtain ⟨⟨len, buf, hf⟩, hq⟩ := hd.2.2.2.2 o ho
    have hok := h.sound.core.fiberOk o
    rw [hf] at hok
    have hw : (c.core.streams o).currentWritePacket.toList.length ≤ 1 := by
      cases (c.core.streams o).currentWritePacket <;> simp
    cases hc : (c.core.streams o).currentReadPacket with
    | none =>
      simp only [PacketStream.packets, hc, hq, Option.toList_none, List.append_nil]
      omega
    | some p =>
      have hmid : midway (c.core.streams o).types = true := by
        simp [PacketStream.types, hc, hq, midway, hok p hc]
      simp only [PacketStream.packets, hc, hq, hmid, if_true, Option.toList_some, List.append_nil, List.length_append,
        List.length_singleton]
      omega
  · exact Nat.le_add_right_of_le (h.sparse.idle o ho)

/-- **A deadlock takes `maxRequestStreamsCnt` responses under way.** -/
theorem Budgeted.not_deadlocked (h : c.Budgeted) : ¬ c.Deadlocked := by
  intro hd
  obtain ⟨hex, hreader, hwriter, hqueue, -⟩ := id hd
  have hreaderPackets : c.core.reader.packets = [] := by
    rcases hreader with hr | ⟨i, o, hr⟩
    · rw [hr]; rfl
    · rw [hr]; rfl
  have hle : maxPacketsCnt ≤ maxRequestStreamsCnt + (ClientStreamProcessor.midways c).card := by
    calc maxPacketsCnt = c.core.held.card := (h.sound.core.exhausted_iff.1 hex).symm
      _ = ∑ o, (c.core.streams o).packets.length := by
        rw [StreamProcessor.card_held, hqueue, hreaderPackets, hwriter]
        simp [Writer.packets]
      _ ≤ ∑ o : StreamNo, (1 + if midway (c.core.streams o).types = true then 1 else 0) :=
        Finset.sum_le_sum fun o _ => h.length_packets_le hd o
      _ = maxRequestStreamsCnt + (ClientStreamProcessor.midways c).card := by
        rw [Finset.sum_add_distrib, Finset.sum_boole]
        simp [maxRequestStreamsCnt, ClientStreamProcessor.midways]
  have := h.midways
  unfold maxPacketsCnt at hle
  omega

/-- **The client does not deadlock** when a response of several packets begins only while fewer than 255 others are under
way. -/
theorem not_deadlocked_of_staggered (as : List Action) (c : ClientStreamProcessor)
    (hans : Run.Meets step (fun c a => Answered c a ∧ Staggered c a) create as)
    (hrun : Run.exec step create as = some c) : ¬ c.Deadlocked := by
  have h : c.Budgeted := Run.invariant (fun _ _ _ hs hC hstep => hs.step hC.1 hC.2 hstep) as budgeted_create hans hrun
  exact h.not_deadlocked

/-- A call that has sent its request and read the first byte of its response: it waits for the next packet. -/
def waitingStream (o : StreamNo) : PacketStream :=
  ⟨[], some ⟨2 * o, .start, o, [0], 1⟩, some ⟨2 * o + 1, .end_, o, [], 0⟩, o⟩

/-- The processor with the first `k` streams waiting so. -/
def called (k : Nat) : ClientStreamProcessor where
  core :=
    { state := .working
      packetsPool := ⟨maxPacketsCnt, 2 * k, []⟩
      writerQueue := []
      streams := fun o => if o.val < k then waitingStream o else PacketStream.create
      requestIds := id
      fibers := fun o => if o.val < k then .reading 1 [0] else .running
      active := fun o => if o.val < k then some o else none
      activeCnt := k
      streamsStopEvent := decide (k = 0)
      writerStopEvent := false
      reader := .acquiring
      writer := .getting }
  waiters := 0

/-- The same, with one more call under way. -/
def calling (k : Nat) (o : StreamNo) (pool : Pool Packet) (queue : List (Option Packet)) (ps : PacketStream) (f : Fiber)
    (reader : Reader) (writer : Writer) : ClientStreamProcessor where
  core :=
    { (called k).core with
      packetsPool := pool
      writerQueue := queue
      streams := Function.update (called k).core.streams o ps
      fibers := Function.update (called k).core.fibers o f
      active := Function.update (called k).core.active o (some o)
      activeCnt := k + 1
      streamsStopEvent := false
      reader := reader
      writer := writer }
  waiters := 0

/-- The writer sends a packet, and the reader makes ready for the next one. -/
def send : List Action :=
  [.event .writer, .event (.writerResult .success), .event (.writerResult .success), .event .reader]

/-- A call that sends a request of one byte, and the first packet of its response. -/
def call (o : StreamNo) : List Action :=
  .createRequestStream o :: .event (.write o [0]) :: .event (.flush o) ::
    (send ++ [.receive ⟨.start, o, [0]⟩, .event (.read o 2), .event (.get o)])

theorem requestIds_called (k : Nat) : (called k).core.requestIds = id := rfl

theorem calling_eq_called (o : StreamNo) :
    calling o o ⟨maxPacketsCnt, 2 * o + 2, []⟩ [] (waitingStream o) (.reading 1 [0]) .acquiring .getting =
      called (o + 1) := by
  have hupdate : ∀ {β : Type} (g : StreamNo → β) (d : β), Function.update (fun i : StreamNo => if i.val < o.val then g i else d) o (g o) =
      fun i => if i.val < o.val + 1 then g i else d := by
    intro β g d
    funext i
    by_cases hi : i = o
    · subst hi
      simp
    · have hne : i.val ≠ o.val := fun h => hi (Fin.ext h)
      have hlt : i.val < o.val + 1 ↔ i.val < o.val := by omega
      simp [hi, hlt]
  simp only [calling, called]
  rw [hupdate waitingStream, hupdate (fun _ => Fiber.reading 1 [0]), hupdate some]
  rfl

theorem two_mul_lt (o : StreamNo) : 2 * o.val + 1 < maxPacketsCnt := by
  have := o.isLt
  show 2 * o.val + 1 < 512
  omega

section
variable (o : StreamNo)

/-- The call has made its stream. -/
def made : ClientStreamProcessor :=
  calling o o ⟨maxPacketsCnt, 2 * o, []⟩ [] ⟨[], none, none, o⟩ .running .acquiring .getting

/-- It has written its request. -/
def written : ClientStreamProcessor :=
  calling o o ⟨maxPacketsCnt, 2 * o + 1, []⟩ [] ⟨[], none, some ⟨2 * o, .start, o, [0], 0⟩, o⟩ .running .acquiring .getting

/-- It has flushed it, and the writer is at `writer`. -/
def flushed (free : List Packet) (queue : List (Option Packet)) (reader : Reader) (writer : Writer) :
    ClientStreamProcessor :=
  calling o o ⟨maxPacketsCnt, 2 * o + 2, free⟩ queue ⟨[], none, some ⟨2 * o + 1, .end_, o, [], 0⟩, o⟩ .running reader writer

/-- The first packet of the response is there. -/
def answered (f : Fiber) : ClientStreamProcessor :=
  calling o o ⟨maxPacketsCnt, 2 * o + 2, []⟩ []
    ⟨[⟨2 * o, .start, o, [0], 0⟩], none, some ⟨2 * o + 1, .end_, o, [], 0⟩, o⟩ f .acquiring .getting

theorem step_create : (called o).step (.createRequestStream o) = some (made o) := by
  simp [step, createRequestStream, enterStream, StreamProcessor.enter, StreamProcessor.owned, called, made, calling,
    PacketStream.initialise, PacketStream.create]

theorem step_write : (made o).step (.event (.write o [0])) = some (written o) := by
  have hlt : 2 * o.val < maxPacketsCnt := Nat.lt_of_succ_lt (two_mul_lt o)
  simp [step, StreamProcessor.event, StreamProcessor.write, StreamProcessor.owned, requestIds_called, made, written,
    calling, StreamProcessor.acquireWritePacket, StreamProcessor.acquirePacket, Pool.acquire, hlt,
    StreamProcessor.fillWritePacket, Packet.create, Packet.writeData, maxPacketSize, StreamProcessor.setStream,
    StreamProcessor.setFiber]

theorem step_flush : (written o).step (.event (.flush o)) =
    some (flushed o [] [some ⟨2 * o, .single, o, [0], 0⟩] .acquiring .getting) := by
  simp [step, StreamProcessor.event, StreamProcessor.flush, StreamProcessor.owned, requestIds_called, written, flushed,
    calling, StreamProcessor.acquireWritePacket, StreamProcessor.acquirePacket, Pool.acquire, two_mul_lt,
    StreamProcessor.fillWritePacket, Packet.create, Packet.writeData, maxPacketSize, StreamProcessor.setStream,
    StreamProcessor.setFiber, StreamProcessor.putPacket, StreamProcessor.lastPacket, PacketType.isLast]

/-- The writer sends the request and releases its packet, which the reader takes for the response. -/
theorem exec_send : Run.exec step (flushed o [] [some ⟨2 * o, .single, o, [0], 0⟩] .acquiring .getting)
    send = some (flushed o [] [] (.reading ⟨2 * o, .start, 0, [], 0⟩) .getting) := rfl

theorem step_receive : (flushed o [] [] (.reading ⟨2 * o, .start, 0, [], 0⟩) .getting).step (.receive ⟨.start, o, [0]⟩) =
    some (answered o .running) := by
  simp [step, receive, flushed, answered, calling, maxPacketSize, StreamProcessor.deliver, StreamProcessor.pushPacket,
    StreamProcessor.setStream, PacketStream.pushPacket, Packet.ofFrame]

theorem step_read : (answered o .running).step (.event (.read o 2)) = some (answered o (.reading 2 [])) := by
  simp [step, StreamProcessor.event, StreamProcessor.read, StreamProcessor.owned, requestIds_called, answered, calling,
    PacketStream.read, StreamProcessor.setStream, StreamProcessor.setFiber, ReadOutcome.fiber]

theorem step_get : (answered o (.reading 2 [])).step (.event (.get o)) = some (called (o + 1)) := by
  rw [← calling_eq_called]
  simp [step, StreamProcessor.event, StreamProcessor.get, StreamProcessor.owned, requestIds_called, answered, calling,
    PacketStream.readNext, PacketType.isFirst, PacketType.isLast, PacketStream.copy, Packet.readData, Packet.rest,
    StreamProcessor.setStream, StreamProcessor.setFiber, StreamProcessor.releasePackets, ReadOutcome.fiber, waitingStream]

theorem exec_call : Run.exec step (called o) (call o) = some (called (o + 1)) := by
  rw [call, Run.exec_cons_of _ (step_create o), Run.exec_cons_of _ (step_write o), Run.exec_cons_of _ (step_flush o),
    Run.exec_append_of _ _ (exec_send o), Run.exec_cons_of _ (step_receive o), Run.exec_cons_of _ (step_read o),
    Run.exec_cons_of _ (step_get o)]
  rfl

/-- **Such a call keeps to the generated form**, and its response to the protocol. -/
theorem meets_call {C : ClientStreamProcessor → Action → Prop} (hC : ∀ c a, (∀ f, a ≠ .receive f) → Answered c a → C c a)
    (hstart : C (flushed o [] [] (.reading ⟨2 * o, .start, 0, [], 0⟩) .getting) (.receive ⟨.start, o, [0]⟩)) :
    Run.Meets step C (called o) (call o) := by
  refine Run.meets_cons_of (hC _ _ (by simp) trivial) (step_create o) ?_
  refine Run.meets_cons_of (hC _ _ (by simp) trivial) (step_write o) ?_
  refine Run.meets_cons_of (hC _ _ (by simp) trivial) (step_flush o) ?_
  refine Run.meets_append_of send (exec_send o) ?_ ?_
  · exact ⟨hC _ _ (by simp) trivial, fun _ _ => ⟨hC _ _ (by simp) trivial, fun _ _ => ⟨hC _ _ (by simp) trivial,
      fun _ _ => ⟨hC _ _ (by simp) trivial, fun _ _ => trivial⟩⟩⟩⟩
  refine Run.meets_cons_of hstart (step_receive o) ?_
  refine Run.meets_cons_of (hC _ _ (by simp) ⟨⟨2 * o + 1, .end_, o, [], 0⟩, ?_, rfl⟩) (step_read o) ?_
  · simp [answered, calling]
  · exact Run.meets_cons_of (hC _ _ (by simp) trivial) (step_get o) trivial

theorem answered_start :
    Answered (flushed o [] [] (.reading ⟨2 * o, .start, 0, [], 0⟩) .getting) (.receive ⟨.start, o, [0]⟩) := by
  intro i hi
  have hio : o = i := by simpa [flushed, calling] using hi
  subst hio
  simp [flushed, calling, PacketStream.types, Continues, PacketType.isFirst]

end

/-- A connection, and `k` such calls. -/
def calls (k : Nat) : List Action := .processStream :: ((List.finRange 256).take k).flatMap call

theorem step_processStream_create : create.step .processStream = some (called 0) := by
  simp [step, processStream, create, called, StreamProcessor.create, Pool.empty]

/-- **Every further call leaves one more stream waiting.** -/
theorem exec_calls : ∀ k ≤ 256, Run.exec step create (calls k) = some (called k) ∧ Run.Meets step Answered create (calls k)
  | 0, _ => ⟨Run.exec_cons_of [] step_processStream_create, Run.meets_cons_of trivial step_processStream_create trivial⟩
  | k + 1, hk => by
    obtain ⟨hrun, hmeets⟩ := exec_calls k (by omega)
    have hcalls : calls (k + 1) = calls k ++ call ⟨k, hk⟩ := by
      have htake : (List.finRange 256).take (k + 1) = (List.finRange 256).take k ++ [⟨k, hk⟩] := by
        rw [List.take_succ_eq_append_getElem (by simpa using hk)]
        simp
      rw [calls, htake, List.flatMap_append, ← List.cons_append, ← calls, List.flatMap_singleton]
    have hcall := exec_call ⟨k, hk⟩
    rw [hcalls]
    refine ⟨(Run.exec_append_of _ _ hrun).trans hcall, Run.meets_append_of _ hrun hmeets ?_⟩
    exact meets_call ⟨k, hk⟩ (fun _ _ _ h => h) (answered_start ⟨k, hk⟩)

/-- One call in the middle of its response. -/
theorem not_deadlocked_called : Run.Meets step (fun c a => Answered c a ∧ Staggered c a) create (calls 1) ∧
    Run.exec step create (calls 1) = some (called 1) ∧ ¬ (called 1).Deadlocked := by
  have hstag : Staggered (flushed 0 [] [] (.reading ⟨0, .start, 0, [], 0⟩) .getting) (.receive ⟨.start, 0, [0]⟩) := by
    intro _
    have hnone : midways (flushed 0 [] [] (.reading ⟨0, .start, 0, [], 0⟩) .getting) = ∅ := by
      refine Finset.filter_eq_empty_iff.2 fun i _ => ?_
      by_cases hi : i = 0
      · subst hi
        decide
      · simp [flushed, calling, called, hi, PacketStream.create, PacketStream.types, midway]
    rw [hnone]
    decide
  have hmeets : Run.Meets step (fun c a => Answered c a ∧ Staggered c a) create (calls 1) := by
    refine Run.meets_cons_of ⟨trivial, trivial⟩ step_processStream_create ?_
    refine meets_call 0 (fun c a ha h => ⟨h, ?_⟩) ⟨answered_start 0, hstag⟩
    cases a with
    | receive f => exact absurd rfl (ha f)
    | _ => trivial
  have hrun := (exec_calls 1 (by decide)).1
  exact ⟨hmeets, hrun, not_deadlocked_of_staggered (calls 1) (called 1) hmeets hrun⟩

/-- All 256 calls are in the middle of their responses. -/
theorem not_forall_client_not_deadlocked : ¬ ∀ (as : List Action) (c : ClientStreamProcessor),
    Run.Meets step Answered create as → Run.exec step create as = some c → ¬ c.Deadlocked := by
  intro h
  obtain ⟨hrun, hmeets⟩ := exec_calls 256 (Nat.le_refl _)
  refine h _ _ hmeets hrun ⟨⟨rfl, by decide⟩, Or.inl rfl, rfl, rfl, fun o _ => ?_⟩
  simp [called, waitingStream]

end ClientStreamProcessor
end Mrpc
