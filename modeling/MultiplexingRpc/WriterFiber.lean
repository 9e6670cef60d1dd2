import MultiplexingRpc.Wire
import MultiplexingRpc.Connection
/-!
# WriterFiber — the packets on their way out (`stream_writer_func`, `skip_writer_queue_packets`)

A journal is kept beside a run: what was put into `writer_queue` since the writer fiber began, the bytes that the
transport got and those of them that were not flushed yet, and the packets that the writer gave back to the pool.
-/
namespace Mrpc

/-! ## What a packet is on the wire -/

namespace Packet

/-- The packet as it lies in memory. -/
def toMemory (p : Packet) : PacketMemory :=
  ⟨storeBytes (Vector.replicate maxPacketSize 0) p.body, Int32.ofNat p.currPos, Int32.ofNat p.body.length, p.type,
    UInt8.ofFin p.requestId⟩

/-- What `mrpc_packet_write_to_stream` writes when nothing fails. -/
def encoding (p : Packet) : List UInt8 :=
  match p.toMemory.writeToStream ⟨[], []⟩ with
  | .ok (_, stream) => stream.written
  | .error _ => []

end Packet

/-- **A write hands over the whole buffer, or a part of it and fails.** -/
theorem ffStreamWrite_cases (stream : OutStream) (buf : List UInt8) :
    (∃ stream', ffStreamWrite stream buf = (.success, stream') ∧ stream'.written = stream.written ++ buf) ∨
    ∃ stream' n, ffStreamWrite stream buf = (.failure, stream') ∧ stream'.written = stream.written ++ buf.take n := by
  obtain ⟨written, outcomes⟩ := stream
  cases outcomes with
  | nil => exact Or.inl ⟨_, rfl, rfl⟩
  | cons o rest =>
    cases o with
    | none => exact Or.inl ⟨_, rfl, rfl⟩
    | some n => exact Or.inr ⟨_, n, rfl, rfl⟩

namespace PacketMemory

/-- What a call of `mrpc_packet_write_to_stream` may come to: the packet goes out as `bytes`, or a part of them does and
the call fails. -/
def HandsOver (p : PacketMemory) (bytes : List UInt8) (stream : OutStream) : Prop :=
  (∃ stream', p.writeToStream stream = .ok (.success, stream') ∧ stream'.written = stream.written ++ bytes) ∨
  ∃ stream' k, p.writeToStream stream = .ok (.failure, stream') ∧ stream'.written = stream.written ++ bytes.take k

theorem take_append_of {xs ys : List UInt8} (n : Nat) : xs.take n = (xs ++ ys).take (min n xs.length) := by
  rw [List.take_append_of_le_length (Nat.min_le_right _ _), ← List.take_eq_take_min]

/-- **The bytes of a packet do not depend on the stream.** -/
theorem handsOver {p : PacketMemory} (h : p.Complete) :
    ∃ octets, p.writeToStream ⟨[], []⟩ = .ok (.success, ⟨[p.requestId] ++ octets ++ p.body, []⟩) ∧
      ∀ stream, p.HandsOver ([p.requestId] ++ octets ++ p.body) stream := by
  generalize htmp : p.type.toUInt32 ||| (p.size.toUInt32 <<< 2) = tmp
  obtain ⟨octets, hloop, -⟩ := uint64SerializeLoop_spec 10 10 tmp.toUInt64 [] (by omega) (by omega)
    (Nat.lt_of_lt_of_le tmp.toUInt64.toNat_lt (by decide))
  rw [List.nil_append] at hloop
  have hnumber : ∀ stream, uint32Serialize tmp stream = .ok (ffStreamWrite stream octets) := fun stream => by
    rw [uint32Serialize, uint64Serialize, hloop]
    rfl
  refine ⟨octets, ?_, fun stream => ?_⟩
  · rw [writeToStream, ffAssert_of h.currPos, ok_bind, ffAssert_of h.size_le, ok_bind]
    simp only [ffStreamWrite, htmp, hnumber, ok_bind, List.nil_append]
  · unfold HandsOver
    rw [writeToStream, ffAssert_of h.currPos, ok_bind, ffAssert_of h.size_le, ok_bind, htmp]
    rcases ffStreamWrite_cases stream [p.requestId] with ⟨s₁, hw₁, h₁⟩ | ⟨s₁, n, hw₁, h₁⟩
    · rw [hw₁]
      dsimp only
      rw [hnumber, ok_bind]
      rcases ffStreamWrite_cases s₁ octets with ⟨s₂, hw₂, h₂⟩ | ⟨s₂, n, hw₂, h₂⟩
      · rw [hw₂]
        dsimp only
        rcases ffStreamWrite_cases s₂ p.body with ⟨s₃, hw₃, h₃⟩ | ⟨s₃, n, hw₃, h₃⟩
        · exact Or.inl ⟨s₃, by rw [hw₃], by rw [h₃, h₂, h₁, List.append_assoc, List.append_assoc, List.append_assoc]⟩
        · refine Or.inr ⟨s₃, ([p.requestId] ++ octets).length + n, by rw [hw₃], ?_⟩
          have htake : ([p.requestId] ++ octets ++ p.body).take (([p.requestId] ++ octets).length + n)
              = [p.requestId] ++ octets ++ p.body.take n := List.take_length_add_append n
          rw [htake, h₃, h₂, h₁, List.append_assoc, List.append_assoc, List.append_assoc]
      · rw [hw₂]
        refine Or.inr ⟨s₂, min ([p.requestId].length + n) ([p.requestId] ++ octets).length, rfl, ?_⟩
        have htake : ([p.requestId] ++ octets).take ([p.requestId].length + n) = [p.requestId] ++ octets.take n :=
          List.take_length_add_append n
        rw [← take_append_of, htake, h₂, h₁, List.append_assoc]
    · rw [hw₁]
      refine Or.inr ⟨s₁, min n [p.requestId].length, rfl, ?_⟩
      rw [h₁, List.append_assoc, ← take_append_of]

end PacketMemory

namespace Packet

variable {p : Packet}

theorem Written.complete (h : p.Written) : p.toMemory.Complete := by
  have hmax : maxPacketSize = 4095 := rfl
  obtain ⟨hpos, hlen⟩ := h
  have hsize : p.toMemory.size.toInt = p.body.length := Int32.toInt_ofNat_of_lt (by omega)
  refine ⟨?_, by omega, by omega⟩
  show Int32.ofNat p.currPos = 0
  rw [hpos]
  rfl

/-- **Whatever the transport does, a packet of the queue goes out as its encoding**, or fails within it. -/
theorem Written.handsOver (h : p.Written) (stream : OutStream) : p.toMemory.HandsOver p.encoding stream := by
  obtain ⟨octets, hempty, hall⟩ := PacketMemory.handsOver h.complete
  rw [encoding, hempty]
  exact hall stream

theorem Written.encoding_ne_nil (h : p.Written) : p.encoding ≠ [] := by
  obtain ⟨octets, hempty, -⟩ := PacketMemory.handsOver h.complete
  rw [encoding, hempty]
  exact List.cons_ne_nil _ _

end Packet

/-! ## The journal -/

/-- What happened since the writer fiber began.  `queued` is all that was put into `writer_queue`, `sent` what the
transport got and `unflushed` the part of it that came after the last flush; `failedAt` is what `sent` was when a write
or a flush failed; `stops` counts how often `writer_stop_event` was set. -/
structure Journal where
  queued : List (Option Packet)
  sent : List UInt8
  unflushed : List UInt8
  released : List Packet
  failedAt : Option (List UInt8)
  stops : Nat

namespace Journal

open StreamProcessor (Event Turn)

/-- The writer fiber begins. -/
def start (s : StreamProcessor) : Journal := ⟨s.writerQueue, [], [], [], none, 0⟩

/-- The writer is done with `p`, of which `bytes` went out. -/
def handOver (j : Journal) (p : Packet) (bytes : List UInt8) : Journal :=
  { j with sent := j.sent ++ bytes, unflushed := j.unflushed ++ bytes, released := j.released ++ [p] }

def fail (j : Journal) : Journal := { j with failedAt := some j.sent }

/-- The event takes `s` to `s'`; of a packet whose write fails `k` bytes went out. -/
def note (j : Journal) (s s' : StreamProcessor) (k : Nat) : Event → Journal
  | .writer =>
    match s.writer, s.writerQueue with
    | .skipping, some p :: _ => { j with released := j.released ++ [p] }
    | _, none :: _ => { j with stops := j.stops + 1 }
    | _, _ => j
  | .writerResult result =>
    match s.writer, result with
    | .writing p, .success => j.handOver p p.encoding
    | .writing p, .failure => (j.handOver p (p.encoding.take k)).fail
    | .flushing, .success => { j with unflushed := [] }
    | .flushing, .failure => j.fail
    | _, _ => j
  | _ => { j with queued := j.queued ++ s'.writerQueue.drop s.writerQueue.length }

variable {j : Journal} {s s' : StreamProcessor}

/-- What holds of the journal at any moment.  The queue's packets are given back in their order, after the one in hand
those that wait; without a failure the transport got their encodings, and a writer with nothing to do has flushed them;
after a failure the transport gets nothing more and the connection is on its way down. -/
structure Kept (j : Journal) (s : StreamProcessor) : Prop where
  order : j.queued = (j.released ++ s.writer.packets).map some ++ (List.replicate j.stops none ++ s.writerQueue)
  sent : j.failedAt = none → j.sent = j.released.flatMap Packet.encoding
  flushed : j.failedAt = none → s.writer = .getting → s.writerQueue = [] → j.unflushed = []
  failed : ∀ bytes, j.failedAt = some bytes → j.sent = bytes ∧ bytes <+: j.released.flatMap Packet.encoding ∧
    (s.writer = .skipping ∨ s.writer = .stopped) ∧ (s.reader ≠ .stopped → s.state = .stopInitiated)
  skipping : s.writer = .skipping → j.failedAt ≠ none
  stops : j.stops = if s.writer = .stopped then 1 else 0

theorem kept_start (hw : s.writer = .getting) : (start s).Kept s := by
  refine ⟨?_, fun _ => rfl, fun _ _ _ => rfl, fun _ h => (nomatch h), fun h => ?_, ?_⟩
  · rw [hw]
    rfl
  · rw [hw] at h
    cases h
  · rw [hw]
    rfl

/-- A turn of another fiber may put something behind the queue. -/
theorem Kept.put (h : j.Kept s) {new : List (Option Packet)} (hq : s'.writerQueue = s.writerQueue ++ new)
    (hw : s'.writer = s.writer) (hstate : s'.reader ≠ .stopped →
      s.reader ≠ .stopped ∧ (s.state = .stopInitiated → s'.state = .stopInitiated)) :
    { j with queued := j.queued ++ new }.Kept s' := by
  refine ⟨?_, h.sent, fun hf hget hempty => ?_, fun bytes hf => ?_, fun hskip => ?_, ?_⟩
  · dsimp only
    rw [h.order, hw, hq]
    simp only [List.append_assoc]
  · rw [hq] at hempty
    exact h.flushed hf (hw ▸ hget) (List.append_eq_nil_iff.1 hempty).1
  · obtain ⟨hsent, hprefix, hwriter, hst⟩ := h.failed bytes hf
    exact ⟨hsent, hprefix, hw ▸ hwriter, fun hr => (hstate hr).2 (hst (hstate hr).1)⟩
  · exact h.skipping (hw ▸ hskip)
  · rw [hw]
    exact h.stops

theorem Kept.congr (h : j.Kept s) (hq : s'.writerQueue = s.writerQueue) (hw : s'.writer = s.writer)
    (hstate : s'.reader ≠ .stopped →
      s.reader ≠ .stopped ∧ (s.state = .stopInitiated → s'.state = .stopInitiated)) : j.Kept s' := by
  have hput : { j with queued := j.queued ++ [] }.Kept s' := h.put (by rw [hq, List.append_nil]) hw hstate
  rwa [List.append_nil] at hput

/-- **Everything but the writer only puts behind the queue.** -/
theorem Kept.note_put (h : j.Kept s) {e : Event} (k : Nat) {new : List (Option Packet)}
    (he : j.note s s' k e = { j with queued := j.queued ++ s'.writerQueue.drop s.writerQueue.length })
    (hq : s'.writerQueue = s.writerQueue ++ new) (hw : s'.writer = s.writer) (hstate : s'.reader ≠ .stopped →
      s.reader ≠ .stopped ∧ (s.state = .stopInitiated → s'.state = .stopInitiated)) : (j.note s s' k e).Kept s' := by
  rw [he, hq, List.drop_left]
  exact h.put hq hw hstate

theorem note_of_owner {e : Event} {o : StreamNo} (k : Nat) (ho : e.owner = some o) :
    j.note s s' k e = { j with queued := j.queued ++ s'.writerQueue.drop s.writerQueue.length } := by
  cases e with
  | read | get | timeout | write | flush | acquire => rfl
  | reader | readerFail | writer | writerResult => cases ho

/-- While the writer writes or flushes nothing has failed yet. -/
theorem Kept.failedAt_eq_none (h : j.Kept s) (h1 : s.writer ≠ .skipping) (h2 : s.writer ≠ .stopped) :
    j.failedAt = none := by
  cases hf : j.failedAt with
  | none => rfl
  | some bytes =>
    obtain ⟨-, -, hw, -⟩ := h.failed bytes hf
    exact (hw.elim h1 h2).elim

theorem Kept.stops_eq_zero (h : j.Kept s) (hw : s.writer ≠ .stopped) : j.stops = 0 := by rw [h.stops, if_neg hw]

/-- **The queue of a running writer**: no `NULL` was taken from it. -/
theorem Kept.order_running (h : j.Kept s) (hw : s.writer ≠ .stopped) :
    j.queued = (j.released ++ s.writer.packets).map some ++ s.writerQueue := by
  have horder := h.order
  rwa [h.stops_eq_zero hw, List.replicate_zero, List.nil_append] at horder

theorem stopAsync_state (hst : s.state ≠ .stopped) : s.stopAsync.state = .stopInitiated := by
  rw [StreamProcessor.stopAsync_eq hst]

/-! ## The writer's turns -/

variable {p : Packet} {queue : List (Option Packet)}

theorem Kept.get (h : j.Kept s) (hw : s.writer = .getting) (hq : s.writerQueue = some p :: queue) :
    j.Kept { s with writerQueue := queue, writer := .writing p } := by
  have hrun : s.writer ≠ .stopped := by rw [hw]; simp
  have horder := h.order_running hrun
  refine ⟨?_, h.sent, nofun, fun bytes hf => ?_, nofun, h.stops_eq_zero hrun⟩
  · rw [h.stops_eq_zero hrun, horder, hw, hq]
    simp [Writer.packets]
  · rw [h.failedAt_eq_none (by rw [hw]; simp) hrun] at hf
    cases hf

theorem Kept.skip (h : j.Kept s) (hw : s.writer = .skipping) (hq : s.writerQueue = some p :: queue) :
    { j with released := j.released ++ [p] }.Kept ({ s with writerQueue := queue }.releasePacket p) := by
  have hrun : s.writer ≠ .stopped := by rw [hw]; simp
  have horder := h.order_running hrun
  have hfailed := h.skipping hw
  refine ⟨?_, fun hf => absurd hf hfailed, fun hf => absurd hf hfailed, fun bytes hf => ?_, fun _ => hfailed, h.stops⟩
  · show j.queued = (j.released ++ [p] ++ s.writer.packets).map some ++ (List.replicate j.stops none ++ queue)
    rw [h.stops_eq_zero hrun, horder, hw, hq]
    simp [Writer.packets]
  · obtain ⟨hsent, hle, hwriter, hst⟩ := h.failed bytes hf
    refine ⟨hsent, hle.trans ?_, hwriter, hst⟩
    rw [List.flatMap_append]
    exact List.prefix_append _ _

theorem Kept.stop (h : j.Kept s) (hw : s.writer = .getting ∨ s.writer = .skipping)
    (hq : s.writerQueue = none :: queue) :
    { j with stops := j.stops + 1 }.Kept { s with writerQueue := queue, writer := .stopped, writerStopEvent := true } := by
  have hrun : s.writer ≠ .stopped := by rcases hw with hw | hw <;> rw [hw] <;> simp
  have hpackets : s.writer.packets = [] := by rcases hw with hw | hw <;> rw [hw] <;> rfl
  have horder := h.order_running hrun
  refine ⟨?_, h.sent, nofun, fun bytes hf => ?_, nofun, by rw [h.stops_eq_zero hrun]; rfl⟩
  · show j.queued = (j.released ++ []).map some ++ (List.replicate (j.stops + 1) none ++ queue)
    rw [h.stops_eq_zero hrun, horder, hpackets, hq]
    rfl
  · obtain ⟨hsent, hle, -, hst⟩ := h.failed bytes hf
    exact ⟨hsent, hle, Or.inr rfl, hst⟩

theorem Kept.write (h : j.Kept s) (hw : s.writer = .writing p) : (j.handOver p p.encoding).Kept
    { s.releasePacket p with writer := if s.writerQueue = [] then .flushing else .getting } := by
  have hrun : s.writer ≠ .stopped := by rw [hw]; simp
  have hnone := h.failedAt_eq_none (by rw [hw]; simp) hrun
  have horder := h.order_running hrun
  refine ⟨?_, fun _ => ?_, fun _ hget hempty => ?_, fun bytes hf => ?_, fun hskip => ?_, ?_⟩
  · show j.queued = (j.released ++ [p] ++ Writer.packets (if s.writerQueue = [] then .flushing else .getting)).map some
      ++ (List.replicate j.stops none ++ s.writerQueue)
    rw [h.stops_eq_zero hrun, horder, hw]
    split <;> simp [Writer.packets]
  · show j.sent ++ p.encoding = (j.released ++ [p]).flatMap Packet.encoding
    rw [h.sent hnone, List.flatMap_append, List.flatMap_singleton]
  · -- the writer goes on without a flush only when it saw another packet
    have hq : s.writerQueue = [] := hempty
    dsimp only at hget
    rw [if_pos hq] at hget
    cases hget
  · have hf : j.failedAt = some bytes := hf
    rw [hnone] at hf
    cases hf
  · dsimp only at hskip
    split at hskip <;> cases hskip
  · show j.stops = _
    rw [h.stops_eq_zero hrun]
    dsimp only
    split <;> rfl

/-- **A failure**: what went out until then is the last that the transport gets. -/
theorem Kept.fail (h : j.Kept s) (hw : s.writer ≠ .stopped) (bytes : List UInt8)
    (hsent : j.sent ++ bytes <+: (j.released ++ s.writer.packets).flatMap Packet.encoding)
    (t : StreamProcessor) (ht : t.writer = .skipping) (hq : t.writerQueue = s.writerQueue)
    (hst : t.reader ≠ .stopped → t.state = .stopInitiated) :
    { j with
      sent := j.sent ++ bytes
      unflushed := j.unflushed ++ bytes
      released := j.released ++ s.writer.packets
      failedAt := some (j.sent ++ bytes) }.Kept t := by
  have horder := h.order_running hw
  refine ⟨?_, nofun, nofun, fun bytes hf => ?_, fun _ => by simp, ?_⟩
  · rw [h.stops_eq_zero hw, horder, ht, hq]
    simp [Writer.packets]
  · cases hf
    exact ⟨rfl, hsent, Or.inl ht, hst⟩
  · rw [ht]
    exact h.stops_eq_zero hw

theorem Kept.writeFail (h : j.Kept s) (hw : s.writer = .writing p) (k : Nat)
    (halive : s.reader ≠ .stopped → s.state ≠ .stopped) :
    (j.handOver p (p.encoding.take k)).fail.Kept { (s.releasePacket p).stopAsync with writer := .skipping } := by
  have hrun : s.writer ≠ .stopped := by rw [hw]; simp
  have hpackets : s.writer.packets = [p] := by rw [hw]; rfl
  have hsent := h.sent (h.failedAt_eq_none (by rw [hw]; simp) hrun)
  have hle : j.sent ++ p.encoding.take k <+: (j.released ++ s.writer.packets).flatMap Packet.encoding := by
    rw [hsent, hpackets, List.flatMap_append, List.flatMap_singleton, List.prefix_append_right_inj]
    exact List.take_prefix _ _
  have hfail := h.fail hrun _ hle { (s.releasePacket p).stopAsync with writer := .skipping } rfl rfl
    (fun hr => stopAsync_state (halive hr))
  rwa [hpackets] at hfail

theorem Kept.flush (h : j.Kept s) (hw : s.writer = .flushing) : { j with unflushed := [] }.Kept { s with writer := .getting } := by
  have hrun : s.writer ≠ .stopped := by rw [hw]; simp
  have hnone := h.failedAt_eq_none (by rw [hw]; simp) hrun
  have horder := h.order
  rw [hw] at horder
  refine ⟨horder, h.sent, fun _ _ _ => rfl, fun bytes hf => ?_, nofun, h.stops_eq_zero hrun⟩
  have hf : j.failedAt = some bytes := hf
  rw [hnone] at hf
  cases hf

theorem Kept.flushFail (h : j.Kept s) (hw : s.writer = .flushing) (halive : s.reader ≠ .stopped → s.state ≠ .stopped) :
    j.fail.Kept { s.stopAsync with writer := .skipping } := by
  have hrun : s.writer ≠ .stopped := by rw [hw]; simp
  have hpackets : s.writer.packets = [] := by rw [hw]; rfl
  have hsent := h.sent (h.failedAt_eq_none (by rw [hw]; simp) hrun)
  have hle : j.sent ++ [] <+: (j.released ++ s.writer.packets).flatMap Packet.encoding := by
    rw [hpackets, List.append_nil, List.append_nil, hsent]
  have hfail := h.fail hrun _ hle { s.stopAsync with writer := .skipping } rfl rfl
    (fun hr => stopAsync_state (halive hr))
  rwa [hpackets, List.append_nil, List.append_nil, List.append_nil] at hfail

/-- **The journal is kept by every shared turn.** -/
theorem Kept.turn (h : j.Kept s) (hs : s.Sound) (halive : s.reader ≠ .stopped → s.state ≠ .stopped) {e : Event}
    (k : Nat) (ht : Turn s e s') : (j.note s s' k e).Kept s' := by
  cases ho : e.owner with
  | some o =>
    obtain ⟨-, ps, f, pool, queue, -, -, rfl⟩ := ht.ownerFrame hs.fiberOk ho
    exact h.note_put k (note_of_owner k ho) rfl rfl (fun hr => ⟨hr, id⟩)
  | none =>
    cases ht.system ho with
    | readerAcquire hr | readerPass hr | readerDisconnect hr | readerBlock hr | readerDisconnectLate hr
    | readerLoopEnd hr =>
      exact h.note_put k rfl (List.append_nil _).symm rfl (fun _ => ⟨by rw [hr]; simp, id⟩)
    | readerStreamsStopped hr he => exact h.note_put k rfl rfl rfl (fun _ => ⟨by rw [hr]; simp, id⟩)
    | readerWriterStopped hr he =>
      exact h.note_put k rfl (List.append_nil _).symm rfl (fun hne => absurd rfl hne)
    | readerFail hr =>
      refine h.note_put k rfl (List.append_nil _).symm rfl (fun _ => ⟨by rw [hr]; simp, fun hst => ?_⟩)
      exact StreamProcessor.stopAsync_of_stopInitiated hst
    | writerGet hw hq =>
      simp only [note, hw, hq]
      exact h.get hw hq
    | writerSkip hw hq =>
      have hskip := h.skip hw hq
      simpa only [note, hw, hq] using hskip
    | writerEnd hw hq =>
      have hstop := h.stop hw hq
      rcases hw with hw | hw
      · simpa only [note, hw, hq] using hstop
      · simpa only [note, hw, hq] using hstop
    | writeOk hw =>
      simp only [note, hw]
      exact h.write hw
    | writeFail hw =>
      simp only [note, hw]
      exact h.writeFail hw k halive
    | flushOk hw =>
      simp only [note, hw]
      exact h.flush hw
    | flushFail hw =>
      simp only [note, hw]
      exact h.flushFail hw halive

/-! ## Back to the pool -/

/-- **What the journal calls released went back to the pool.** -/
theorem released_note {e : Event} (he : e = .writer ∨ ∃ result, e = .writerResult result) (hs : s.event e = some s')
    (k : Nat) : ∃ ps, (j.note s s' k e).released = j.released ++ ps ∧
      s'.packetsPool = (s.releasePackets ps).packetsPool := by
  have ho : e.owner = none := by rcases he with rfl | ⟨result, rfl⟩ <;> rfl
  have hr : e ≠ .reader ∧ e ≠ .readerFail := by rcases he with rfl | ⟨result, rfl⟩ <;> simp
  cases (StreamProcessor.turn_of_event hs).system ho with
  | readerAcquire | readerPass | readerDisconnect | readerBlock | readerDisconnectLate | readerLoopEnd
  | readerStreamsStopped | readerWriterStopped => exact absurd rfl hr.1
  | readerFail => exact absurd rfl hr.2
  | writerGet hw hq => exact ⟨[], by simp only [note, hw, hq, List.append_nil], rfl⟩
  | @writerSkip p queue hw hq => exact ⟨[p], by simp only [note, hw, hq], rfl⟩
  | writerEnd hw hq =>
    rcases hw with hw | hw
    · exact ⟨[], by simp only [note, hw, hq, List.append_nil], rfl⟩
    · exact ⟨[], by simp only [note, hw, hq, List.append_nil], rfl⟩
  | @writeOk p hw => exact ⟨[p], by simp only [note, hw, handOver], rfl⟩
  | @writeFail p hw => exact ⟨[p], by simp only [note, hw, handOver, Journal.fail], rfl⟩
  | flushOk hw => exact ⟨[], by simp only [note, hw, List.append_nil], rfl⟩
  | flushFail hw => exact ⟨[], by simp only [note, hw, Journal.fail, List.append_nil], rfl⟩

/-- **The rest of the queue, up to the `NULL`**: every packet of it goes back to the pool, then the event is set. -/
theorem exec_skip : ∀ (ps : List Packet) {s : StreamProcessor}, s.writer = .skipping →
    s.writerQueue = ps.map some ++ none :: queue →
    Run.exec StreamProcessor.event s (List.replicate (ps.length + 1) .writer)
      = some { s.releasePackets ps with writerQueue := queue, writer := .stopped, writerStopEvent := true }
  | [], s, hw, hq => by
    have hstep : s.event .writer = some { s with writerQueue := queue, writer := .stopped, writerStopEvent := true } := by
      rw [List.map_nil, List.nil_append] at hq
      simp only [StreamProcessor.event, StreamProcessor.writerStep, hw, hq]
    rw [List.length_nil, Nat.zero_add, List.replicate_one, Run.exec_cons_of _ hstep]
    rfl
  | p :: ps, s, hw, hq => by
    have hstep : s.event .writer = some ({ s with writerQueue := ps.map some ++ none :: queue }.releasePacket p) := by
      rw [List.map_cons, List.cons_append] at hq
      simp only [StreamProcessor.event, StreamProcessor.writerStep, hw, hq]
    rw [List.length_cons, List.replicate_succ, Run.exec_cons_of _ hstep]
    refine (exec_skip ps (s := { s with writerQueue := ps.map some ++ none :: queue }.releasePacket p) hw rfl).trans ?_
    rw [StreamProcessor.releasePackets_eq, StreamProcessor.releasePackets_eq]
    rfl

end Journal

/-! ## Runs with a journal -/

/-- A fiber that is not at its end keeps the processor out of `STATE_STOPPED`. -/
def StreamProcessor.Alive (s : StreamProcessor) : Prop := s.reader ≠ .stopped → s.state ≠ .stopped

theorem StreamProcessor.Alive.turn {s s' : StreamProcessor} (h : s.Alive) (hs : s.Sound) {e : Event}
    (ht : Turn s e s') : s'.Alive := by
  cases ho : e.owner with
  | some o =>
    obtain ⟨-, ps, f, pool, queue, -, -, rfl⟩ := ht.ownerFrame hs.fiberOk ho
    exact h
  | none =>
    cases ht.system ho with
    | readerAcquire hr | readerPass hr | readerDisconnect hr | readerBlock hr | readerDisconnectLate hr
    | readerLoopEnd hr | readerStreamsStopped hr => exact fun _ => h (by rw [hr]; simp)
    | readerWriterStopped => exact fun hne => absurd rfl hne
    | readerFail hr => exact fun _ => StreamProcessor.stopAsync_ne_stopped (h (by rw [hr]; simp))
    | writeFail | flushFail => exact fun hr => StreamProcessor.stopAsync_ne_stopped (h hr)
    | _ => exact h

namespace ClientStreamProcessor

/-- A step with the journal: `process_stream` starts a new one. -/
def journaled (x : ClientStreamProcessor × Option Journal) (a : Action × Nat) :
    Option (ClientStreamProcessor × Option Journal) :=
  (x.1.step a.1).map fun c =>
    (c, match a.1 with
      | .event e => x.2.map fun j => j.note x.1.core c.core a.2 e
      | .processStream => if c.core.state = .working then some (.start c.core) else x.2
      | _ => x.2)

/-- What holds after every run with a journal. -/
structure Journaled (x : ClientStreamProcessor × Option Journal) : Prop where
  sound : x.1.Sound
  neat : x.1.core.Neat
  alive : x.1.core.Alive
  kept : ∀ j, x.2 = some j → j.Kept x.1.core

theorem journaled_create : Journaled (create, none) := by
  refine ⟨sound_create, StreamProcessor.neat_create, fun h => absurd rfl h, nofun⟩

theorem alive_step {c c' : ClientStreamProcessor} {a : Action} (h : c.core.Alive) (hc : c.Sound)
    (hs : c.step a = some c') : c'.core.Alive := by
  cases outcome_of_step hs with
  | event ht => exact h.turn hc.core ht
  | processNothing hr hst => exact fun hne => absurd hr hne
  | process hr hst => exact fun _ => by simp
  | deleted ho hf =>
    rw [StreamProcessor.releaseStream_eq]
    exact h
  | stopAsync => exact fun _ => by simp [ClientStreamProcessor.stopAsync]
  | delivered hr hslot => exact fun _ => h (by rw [hr]; simp)
  | unexpected hr hslot => exact fun _ => StreamProcessor.stopAsync_ne_stopped (h (by rw [hr]; simp))
  | _ => exact h

theorem Journaled.step {x y : ClientStreamProcessor × Option Journal} {a : Action × Nat} (h : Journaled x)
    (hs : journaled x a = some y) : Journaled y := by
  obtain ⟨c, j⟩ := x
  obtain ⟨a, k⟩ := a
  obtain ⟨c', hstep, rfl⟩ := Option.map_eq_some_iff.1 hs
  refine ⟨h.sound.step hstep, neat_step h.neat hstep, alive_step h.alive h.sound hstep, fun j' hj => ?_⟩
  dsimp only at hstep hj ⊢
  cases outcome_of_step hstep with
  | event ht =>
    obtain ⟨j, rfl, rfl⟩ := Option.map_eq_some_iff.1 hj
    exact (h.kept j rfl).turn h.sound.core h.alive k ht
  | processNothing hr hst =>
    exact (h.kept j' hj).congr rfl rfl (fun hne => absurd hr hne)
  | process hr hst =>
    cases hj
    exact Journal.kept_start rfl
  | refused | waits => exact h.kept j' hj
  | created | woken => exact (h.kept j' hj).congr rfl rfl (fun hne => ⟨hne, id⟩)
  | delivered hr hslot => exact (h.kept j' hj).congr rfl rfl (fun _ => ⟨by rw [hr]; simp, id⟩)
  | unexpected hr hslot =>
    refine (h.kept j' hj).congr rfl rfl (fun _ => ⟨by rw [hr]; simp, fun hst => ?_⟩)
    exact StreamProcessor.stopAsync_of_stopInitiated hst
  | deleted ho hf =>
    rw [StreamProcessor.releaseStream_eq]
    exact (h.kept j' hj).congr rfl rfl (fun hne => ⟨hne, id⟩)
  | stopAsync => exact (h.kept j' hj).congr rfl rfl (fun hne => ⟨hne, fun _ => rfl⟩)

theorem journaled_of_exec (as : List (Action × Nat)) {x : ClientStreamProcessor × Option Journal}
    (hrun : Run.exec journaled (create, none) as = some x) : Journaled x :=
  Run.invariant (P := Journaled) (fun _ _ _ h _ hs => h.step hs) as journaled_create (Run.meets_true _ _) hrun

end ClientStreamProcessor

namespace ServerStreamProcessor

/-- A step with the journal: `stream_reader_func` starts a new one. -/
def journaled (x : StreamProcessor × Option Journal) (a : Action × Nat) : Option (StreamProcessor × Option Journal) :=
  (step x.1 a.1).map fun s =>
    (s, match a.1 with
      | .event e => x.2.map fun j => j.note x.1 s a.2 e
      | .start => none
      | .readerStart => some (.start s)
      | _ => x.2)

/-- What holds after every run with a journal. -/
structure Journaled (x : StreamProcessor × Option Journal) : Prop where
  sound : Sound x.1
  neat : x.1.Neat
  kept : ∀ j, x.2 = some j → j.Kept x.1

theorem journaled_create : Journaled (create, none) := ⟨sound_create, neat_create, nofun⟩

theorem Sound.alive {s : StreamProcessor} (h : Sound s) : s.Alive := fun hr hst => hr (h.phased.quiet hst).1

theorem Journaled.step {x y : StreamProcessor × Option Journal} {a : Action × Nat} (h : Journaled x)
    (hs : journaled x a = some y) : Journaled y := by
  obtain ⟨s, j⟩ := x
  obtain ⟨a, k⟩ := a
  obtain ⟨s', hstep, rfl⟩ := Option.map_eq_some_iff.1 hs
  refine ⟨h.sound.step hstep, neat_step h.neat hstep, fun j' hj => ?_⟩
  dsimp only at hstep hj ⊢
  cases outcome_of_step hstep with
  | event ht =>
    obtain ⟨j, rfl, rfl⟩ := Option.map_eq_some_iff.1 hj
    exact (h.kept j rfl).turn h.sound.core h.sound.alive k ht
  | start => cases hj
  | readerStart hr =>
    cases hj
    exact Journal.kept_start rfl
  | begun hr hf hslot ho | continued hr hf hslot =>
    exact (h.kept j' hj).congr rfl rfl (fun _ => ⟨by rw [hr]; simp, id⟩)
  | unexpected hr hf =>
    refine (h.kept j' hj).congr rfl rfl (fun _ => ⟨by rw [hr]; simp, fun hst => ?_⟩)
    exact StreamProcessor.stopAsync_of_stopInitiated hst
  | returned ho hf =>
    rw [StreamProcessor.releaseStream_eq]
    exact (h.kept j' hj).congr rfl rfl (fun hne => ⟨hne, id⟩)
  | failed ho hf =>
    rw [StreamProcessor.releaseStream_eq]
    exact (h.kept j' hj).congr rfl rfl (fun hne => ⟨hne, StreamProcessor.stopAsync_of_stopInitiated⟩)
  | stopAsync => exact (h.kept j' hj).congr rfl rfl (fun hne => ⟨hne, StreamProcessor.stopAsync_of_stopInitiated⟩)

theorem journaled_of_exec (as : List (Action × Nat)) {x : StreamProcessor × Option Journal}
    (hrun : Run.exec journaled (create, none) as = some x) : Journaled x :=
  Run.invariant (P := Journaled) (fun _ _ _ h _ hs => h.step hs) as journaled_create (Run.meets_true _ _) hrun

end ServerStreamProcessor
namespace Journal

open StreamProcessor (Event)

/-- **The writer fiber.**  On both sides, in every run: the journal is kept; the packet in hand goes out as its encoding
or fails within it; what is called released is released; and after a failure every packet up to the `NULL` goes back to
the pool before the event is set. -/
theorem kept_of_exec :
    (∀ as c j, Run.exec ClientStreamProcessor.journaled (ClientStreamProcessor.create, none) as = some (c, some j) →
      j.Kept c.core ∧ ∀ p ∈ c.core.writer.packets, ∀ stream, p.toMemory.HandsOver p.encoding stream) ∧
    (∀ as s j, Run.exec ServerStreamProcessor.journaled (ServerStreamProcessor.create, none) as = some (s, some j) →
      j.Kept s ∧ ∀ p ∈ s.writer.packets, ∀ stream, p.toMemory.HandsOver p.encoding stream) ∧
    (∀ (j : Journal) (s s' : StreamProcessor) (e : Event) (k : Nat), (e = .writer ∨ ∃ result, e = .writerResult result) →
      s.event e = some s' → ∃ ps, (j.note s s' k e).released = j.released ++ ps ∧
        s'.packetsPool = (s.releasePackets ps).packetsPool) ∧
    ∀ (s : StreamProcessor) ps queue, s.writer = .skipping → s.writerQueue = ps.map some ++ none :: queue →
      Run.exec StreamProcessor.event s (List.replicate (ps.length + 1) .writer)
        = some { s.releasePackets ps with writerQueue := queue, writer := .stopped, writerStopEvent := true } := by
  refine ⟨fun as c j hrun => ?_, fun as s j hrun => ?_, fun j s s' e k he hs => released_note he hs k,
    fun s ps queue hw hq => exec_skip ps hw hq⟩
  · have h := ClientStreamProcessor.journaled_of_exec as hrun
    exact ⟨h.kept j rfl, fun p hp stream => (h.neat.writer p hp).handsOver stream⟩
  · have h := ServerStreamProcessor.journaled_of_exec as hrun
    exact ⟨h.kept j rfl, fun p hp stream => (h.neat.writer p hp).handsOver stream⟩

/-- Two messages of one packet each are queued; the first is written, the second fails. -/
def secondWriteFails : List (ClientStreamProcessor.Action × Nat) :=
  [(.processStream, 0), (.createRequestStream 0, 0), (.event (.write 0 [1]), 0), (.event (.flush 0), 0),
    (.createRequestStream 1, 0), (.event (.write 1 [2]), 0), (.event (.flush 1), 0), (.event .writer, 0),
    (.event (.writerResult .success), 0), (.event .writer, 0), (.event (.writerResult .failure), 0)]

theorem kept_of_exec_secondWriteFails : (∃ c j, Run.exec ClientStreamProcessor.journaled
      (ClientStreamProcessor.create, none) secondWriteFails = some (c, some j) ∧ j.Kept c.core) ∧
    (∃ s j, Run.exec ServerStreamProcessor.journaled (ServerStreamProcessor.create, none)
      [(.start, 0), (.readerStart, 0)] = some (s, some j) ∧ j.Kept s) ∧
    ∃ s, Run.exec StreamProcessor.event { StreamProcessor.create with writer := .skipping, writerQueue := [none] }
      [.writer] = some s ∧ s.writerStopEvent = true := by
  refine ⟨⟨_, _, rfl, (kept_of_exec.1 secondWriteFails _ _ rfl).1⟩,
    ⟨_, _, rfl, (kept_of_exec.2.1 [(.start, 0), (.readerStart, 0)] _ _ rfl).1⟩, ?_⟩
  exact ⟨_, kept_of_exec.2.2.2 _ [] [] rfl rfl, rfl⟩

/-- **The packets written before a failure stay unflushed** while `skip_writer_queue_packets` waits on the empty queue. -/
theorem not_flushed_skipping : ¬ ∀ as c j,
    Run.exec ClientStreamProcessor.journaled (ClientStreamProcessor.create, none) as = some (c, some j) →
      (c.core.writer = .getting ∨ c.core.writer = .skipping) → c.core.writerQueue = [] → j.unflushed = [] := by
  intro h
  have hempty := h secondWriteFails _ _ rfl (Or.inr rfl) rfl
  have hfirst : ([] ++ Packet.encoding ⟨0, .single, 0, [1], 0⟩ ++ (Packet.encoding ⟨2, .single, 1, [2], 0⟩).take 0
      : List UInt8) = [] := hempty
  rw [List.take_zero, List.append_nil, List.nil_append] at hfirst
  exact Packet.Written.encoding_ne_nil ⟨rfl, by decide⟩ hfirst

end Journal
end Mrpc
