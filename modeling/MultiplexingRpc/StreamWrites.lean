import MultiplexingRpc.Ends
/-!
# StreamWrites — whole calls of `mrpc_packet_stream_write` and `mrpc_packet_stream_flush`

Here a write runs to its end: `acquire_packet_func` returns a packet whenever it is called, the `n`-th time one with the
address `addrs n`.  What a message's writes and its flush put into the writer queue depends on the bytes alone
(`writes_canonical`), and the turns of a stream's owner, which waits for packets in between, put the same there
(`Sends.flush`).
-/
namespace Mrpc

/-! ## The canonical split -/

/-- The greedy split of a list into pieces of `n` elements, the last of which has what is left; one empty piece when
there is nothing. -/
def chunks {β : Type} (n : Nat) (l : List β) : List (List β) :=
  if n = 0 ∨ l.length ≤ n then [l] else l.take n :: chunks n (l.drop n)
termination_by l.length
decreasing_by rw [List.length_drop]; omega

/-- **There is one split into full pieces and a last one that is not empty after them.** -/
theorem chunks_eq {β : Type} {n : Nat} (hn : 0 < n) : ∀ (full : List (List β)) (last : List β),
    (∀ piece ∈ full, piece.length = n) → last.length ≤ n → (full ≠ [] → last ≠ []) →
    chunks n (full.flatten ++ last) = full ++ [last]
  | [], last, _, hlast, _ => by
    rw [chunks, List.flatten_nil, List.nil_append, if_pos (Or.inr hlast), List.nil_append]
  | piece :: full, last, hfull, hlast, hne => by
    have hpiece := hfull piece List.mem_cons_self
    have hlen : 0 < last.length := List.length_pos_iff.2 (hne (List.cons_ne_nil _ _))
    rw [chunks, List.flatten_cons, List.append_assoc, if_neg (by simp only [List.length_append]; omega),
      List.take_left' hpiece, List.drop_left' hpiece,
      chunks_eq hn full last (fun q hq => hfull q (List.mem_cons_of_mem _ hq)) hlast
        (fun _ => hne (List.cons_ne_nil _ _)), List.cons_append]

/-- The types of the packets of a message, by their number. -/
def messageTypes : Nat → List PacketType
  | 0 | 1 => [.single]
  | n + 2 => .start :: (List.replicate n .middle ++ [.end_])

/-- A message as its packets say it on the wire. -/
def canonicalMessage (requestId : RequestId) (bytes : List UInt8) : List Frame :=
  List.zipWith (fun type body => ⟨type, requestId, body⟩) (messageTypes (chunks maxPacketSize bytes).length)
    (chunks maxPacketSize bytes)

/-! ## Whole calls -/

/-- A packet stream that writes, with the packets it has put into the writer queue and how many it has acquired. -/
structure StreamWriter where
  stream : PacketStream
  writerQueue : List Packet
  acquired : Nat
  deriving DecidableEq, Repr

namespace StreamWriter

variable (addrs : Nat → Nat)

/-- `acquire_packet`. -/
def acquirePacket (w : StreamWriter) (type : PacketType) : Packet × StreamWriter :=
  ({ Packet.create (addrs w.acquired) with requestId := w.stream.requestId, type := type },
    { w with acquired := w.acquired + 1 })

def putPacket (w : StreamWriter) (p : Packet) : StreamWriter := { w with writerQueue := w.writerQueue ++ [p] }

/-- A turn of the loop writes something, or puts a full packet aside for an empty one. -/
theorem writeLoop_decreases {current p next : Packet} {buf rest : List UInt8}
    (hwrite : current.writeData buf = (p, rest)) (hrest : rest ≠ []) (hnext : next.body = []) :
    Prod.Lex (· < ·) (· < ·) (rest.length, next.body.length) (buf.length, current.body.length) := by
  cases hwrite
  rw [hnext, Prod.lex_def]
  have hpos := List.length_pos_iff.2 hrest
  dsimp only [Packet.writeData] at hpos ⊢
  rw [List.length_drop] at hpos ⊢
  rw [List.length_nil]
  by_cases hfull : maxPacketSize ≤ current.body.length
  · have hmax : 0 < maxPacketSize := by decide
    exact Or.inr ⟨by omega, by omega⟩
  · exact Or.inl (by omega)

/-- The loop of `mrpc_packet_stream_write`, with the current packet in hand.  A full packet is put only when there is
more to write. -/
def writeLoop (w : StreamWriter) (current : Packet) (buf : List UInt8) : StreamWriter :=
  match _h : current.writeData buf with
  | (p, rest) =>
    if _hrest : rest = [] then { w with stream := { w.stream with currentWritePacket := some p } }
    else
      let acquired := (w.putPacket p).acquirePacket addrs .middle
      writeLoop acquired.2 acquired.1 rest
termination_by (buf.length, current.body.length)
decreasing_by exact writeLoop_decreases _h _hrest rfl

/-- `mrpc_packet_stream_write`. -/
def write (w : StreamWriter) (buf : List UInt8) : StreamWriter :=
  match w.stream.currentWritePacket with
  | none =>
    let (current, w') := w.acquirePacket addrs .start
    w'.writeLoop addrs current buf
  | some current => w.writeLoop addrs current buf

/-- `mrpc_packet_stream_flush`; it is asserted that something was written before. -/
def flush (w : StreamWriter) : Except Fault StreamWriter :=
  match w.stream.currentWritePacket with
  | none => .error .assertion
  | some current => do
    ffAssert (current.type = .start ∨ current.type = .middle)
    let (next, w') := (w.putPacket (StreamProcessor.lastPacket current)).acquirePacket addrs .end_
    return { w' with stream := { w'.stream with currentWritePacket := some next } }

/-- A stream that was just initialised. -/
def fresh (requestId : RequestId) : StreamWriter := ⟨PacketStream.create.initialise requestId, [], 0⟩

/-- A message: writes one after another, and a flush. -/
def send (w : StreamWriter) (bufs : List (List UInt8)) : Except Fault StreamWriter :=
  (bufs.foldl (write addrs) w).flush addrs

/-! ## What is put -/

/-- The stream has written `bytes`, without a flush: the packets in the queue are full, and `current` has the rest. -/
structure Filling (w : StreamWriter) (current : Packet) (bytes : List UInt8) : Prop where
  bodies : (w.writerQueue.map Packet.body).flatten ++ current.body = bytes
  full : ∀ p ∈ w.writerQueue, p.body.length = maxPacketSize
  size : current.body.length ≤ maxPacketSize
  types : (w.writerQueue ++ [current]).map Packet.type = .start :: List.replicate w.writerQueue.length .middle
  ids : ∀ p ∈ w.writerQueue ++ [current], p.requestId = w.stream.requestId

theorem Filling.writeData {w : StreamWriter} {current : Packet} {bytes : List UInt8} (h : w.Filling current bytes)
    {buf : List UInt8} (hrest : (current.writeData buf).2 = []) :
    w.Filling (current.writeData buf).1 (bytes ++ buf) where
  bodies := by
    have hbody := current.writeData_body buf
    rw [hrest, List.append_nil] at hbody
    rw [hbody, ← List.append_assoc, h.bodies]
  full := h.full
  size := Packet.length_writeData_le h.size buf
  types := by
    have ht := h.types
    rw [List.map_append] at ht ⊢
    exact ht
  ids := by
    intro p hp
    rcases List.mem_append.1 hp with hp | hp
    · exact h.ids p (List.mem_append_left _ hp)
    · rw [List.mem_singleton.1 hp]
      exact h.ids current (List.mem_append_right _ List.mem_cons_self)

theorem Filling.congr {w w' : StreamWriter} {current : Packet} {bytes : List UInt8} (h : w.Filling current bytes)
    (hqueue : w'.writerQueue = w.writerQueue) (hid : w'.stream.requestId = w.stream.requestId) :
    w'.Filling current bytes := by
  obtain ⟨h1, h2, h3, h4, h5⟩ := h
  exact ⟨by rw [hqueue, h1], by rwa [hqueue], h3, by rwa [hqueue], by rwa [hqueue, hid]⟩

/-- **Putting a full packet aside for an empty one keeps the split.** -/
theorem Filling.putPacket {w : StreamWriter} {current next : Packet} {bytes : List UInt8} (h : w.Filling current bytes)
    (hfull : current.body.length = maxPacketSize) (hbody : next.body = []) (htype : next.type = .middle)
    (hid : next.requestId = w.stream.requestId) : (w.putPacket current).Filling next bytes where
  bodies := by
    have hbodies := h.bodies
    simpa [StreamWriter.putPacket, hbody] using hbodies
  full := by
    intro p hp
    rcases List.mem_append.1 hp with hp | hp
    · exact h.full p hp
    · rw [List.mem_singleton.1 hp, hfull]
  size := by rw [hbody]; exact Nat.zero_le _
  types := by
    have ht := h.types
    simp only [StreamWriter.putPacket, List.map_append, List.length_append, List.length_singleton,
      List.replicate_succ', List.map_cons, List.map_nil] at ht ⊢
    rw [ht, htype, List.cons_append]
  ids := by
    intro p hp
    rcases List.mem_append.1 hp with hp | hp
    · exact h.ids p hp
    · rw [List.mem_singleton.1 hp]
      exact hid

/-- What of a buffer fits into a packet. -/
theorem Filling.writeFits {w : StreamWriter} {current : Packet} {bytes : List UInt8} (h : w.Filling current bytes)
    (buf : List UInt8) :
    w.Filling (current.writeData buf).1 (bytes ++ buf.take (maxPacketSize - current.body.length)) := by
  have hall : (current.writeData (buf.take (maxPacketSize - current.body.length))).2 = [] := by simp [Packet.writeData]
  have h1 := h.writeData hall
  simpa [Packet.writeData, List.take_take] using h1

theorem writeLoop_fits {w : StreamWriter} {current : Packet} {buf : List UInt8} (h : (current.writeData buf).2 = []) :
    w.writeLoop addrs current buf =
      { w with stream := { w.stream with currentWritePacket := some (current.writeData buf).1 } } := by
  rw [writeLoop]
  split
  rename_i p rest hw
  rw [hw] at h ⊢
  rw [dif_pos h]

theorem writeLoop_more {w : StreamWriter} {current : Packet} {buf : List UInt8} (h : (current.writeData buf).2 ≠ []) :
    w.writeLoop addrs current buf =
      ((w.putPacket (current.writeData buf).1).acquirePacket addrs .middle).2.writeLoop addrs
        ((w.putPacket (current.writeData buf).1).acquirePacket addrs .middle).1 (current.writeData buf).2 := by
  rw [writeLoop]
  split
  rename_i p rest hw
  rw [hw] at h ⊢
  rw [dif_neg h]

/-- **The loop keeps the split**, and ends with a packet that is not empty after others. -/
theorem filling_writeLoop (w : StreamWriter) (current : Packet) (buf bytes : List UInt8) (h : w.Filling current bytes)
    (hne : w.writerQueue ≠ [] → current.body ++ buf ≠ []) :
    ∃ next, (w.writeLoop addrs current buf).stream = { w.stream with currentWritePacket := some next } ∧
      (w.writeLoop addrs current buf).Filling next (bytes ++ buf) ∧
      ((w.writeLoop addrs current buf).writerQueue ≠ [] → next.body ≠ []) := by
  have hbody := current.writeData_body buf
  by_cases hrest : (current.writeData buf).2 = []
  · rw [writeLoop_fits addrs hrest]
    obtain ⟨h1, h2, h3, h4, h5⟩ := h.writeData hrest
    rw [hrest, List.append_nil] at hbody
    exact ⟨_, rfl, ⟨h1, h2, h3, h4, h5⟩, fun hq => hbody ▸ hne hq⟩
  · rw [writeLoop_more addrs hrest]
    have hput : (w.putPacket (current.writeData buf).1).Filling
        ((w.putPacket (current.writeData buf).1).acquirePacket addrs .middle).1 _ :=
      (h.writeFits buf).putPacket (Packet.length_writeData h.size hrest) rfl rfl rfl
    obtain ⟨next, hstream, hfill, hlast⟩ := filling_writeLoop
      ((w.putPacket (current.writeData buf).1).acquirePacket addrs .middle).2 _ (current.writeData buf).2 _
      (hput.congr rfl rfl)
      (fun _ => List.append_ne_nil_of_right_ne_nil _ hrest)
    refine ⟨next, hstream, ?_, hlast⟩
    rw [Packet.writeData, List.append_assoc, List.take_append_drop] at hfill
    exact hfill
termination_by (buf.length, current.body.length)
decreasing_by exact writeLoop_decreases rfl hrest rfl

/-- The stream has written `bytes` in at least one call. -/
def Wrote (w : StreamWriter) (bytes : List UInt8) : Prop :=
  ∃ current, w.stream.currentWritePacket = some current ∧ w.Filling current bytes ∧
    (w.writerQueue ≠ [] → current.body ≠ [])

theorem wrote_first (requestId : RequestId) (buf : List UInt8) :
    ((fresh requestId).write addrs buf).Wrote buf ∧
      ((fresh requestId).write addrs buf).stream.requestId = requestId := by
  have h : ((fresh requestId).acquirePacket addrs .start).2.Filling
      ((fresh requestId).acquirePacket addrs .start).1 [] :=
    ⟨rfl, nofun, Nat.zero_le _, rfl, fun p hp => by rw [List.mem_singleton.1 hp]; rfl⟩
  obtain ⟨next, hstream, hfill, hlast⟩ := filling_writeLoop addrs _ _ buf [] h (fun hq => absurd rfl hq)
  have hwrite : (fresh requestId).write addrs buf = ((fresh requestId).acquirePacket addrs .start).2.writeLoop addrs
      ((fresh requestId).acquirePacket addrs .start).1 buf := rfl
  rw [hwrite]
  exact ⟨⟨next, by rw [hstream], hfill, hlast⟩, by rw [hstream]; rfl⟩

theorem Wrote.write {w : StreamWriter} {bytes : List UInt8} (h : w.Wrote bytes) (buf : List UInt8) :
    (w.write addrs buf).Wrote (bytes ++ buf) ∧ (w.write addrs buf).stream.requestId = w.stream.requestId := by
  obtain ⟨current, hc, hfill, hne⟩ := h
  obtain ⟨next, hstream, hfill', hlast⟩ := filling_writeLoop addrs w current buf bytes hfill
    (fun hq => List.append_ne_nil_of_left_ne_nil (hne hq) _)
  have hwrite : w.write addrs buf = w.writeLoop addrs current buf := by rw [StreamWriter.write, hc]
  rw [hwrite]
  exact ⟨⟨next, by rw [hstream], hfill', hlast⟩, by rw [hstream]⟩

theorem Wrote.writes : ∀ (bufs : List (List UInt8)) {w : StreamWriter} {bytes : List UInt8}, w.Wrote bytes →
    (bufs.foldl (StreamWriter.write addrs) w).Wrote (bytes ++ bufs.flatten) ∧
      (bufs.foldl (StreamWriter.write addrs) w).stream.requestId = w.stream.requestId
  | [], w, bytes, h => by
    rw [List.flatten_nil, List.append_nil]
    exact ⟨h, rfl⟩
  | buf :: bufs, w, bytes, h => by
    obtain ⟨h1, h2⟩ := h.write addrs buf
    obtain ⟨h3, h4⟩ := Wrote.writes bufs h1
    rw [List.flatten_cons, ← List.append_assoc]
    exact ⟨h3, h4.trans h2⟩

theorem map_frame {requestId : RequestId} : ∀ {l : List Packet}, (∀ p ∈ l, p.requestId = requestId) →
    l.map Packet.frame =
      List.zipWith (fun type body => ⟨type, requestId, body⟩) (l.map Packet.type) (l.map Packet.body)
  | [], _ => rfl
  | p :: l, h => by
    rw [List.map_cons, List.map_cons, List.map_cons, List.zipWith_cons_cons,
      map_frame (fun q hq => h q (List.mem_cons_of_mem p hq)), Packet.frame, h p List.mem_cons_self]

/-- With its current packet the last one a stream's packets have the types of a message. -/
theorem Filling.lastTypes {w : StreamWriter} {current : Packet} {bytes : List UInt8} (h : w.Filling current bytes) :
    (w.writerQueue ++ [StreamProcessor.lastPacket current]).map Packet.type =
      messageTypes (w.writerQueue.length + 1) := by
  have ht := h.types
  rw [List.map_append] at ht ⊢
  cases hlen : w.writerQueue.length with
  | zero =>
    rw [List.eq_nil_of_length_eq_zero hlen] at ht ⊢
    have hstart : current.type = .start := List.head_eq_of_cons_eq ht
    simp [StreamProcessor.lastPacket, hstart, messageTypes]
  | succ n =>
    rw [hlen, List.replicate_succ', ← List.cons_append] at ht
    obtain ⟨hqueue, hcurrent⟩ := List.append_inj' ht rfl
    have hmiddle : current.type = .middle := List.head_eq_of_cons_eq hcurrent
    simp [StreamProcessor.lastPacket, hqueue, hmiddle, messageTypes]

/-- **A flush completes the canonical split.** -/
theorem Filling.frames {w : StreamWriter} {current : Packet} {bytes : List UInt8} (h : w.Filling current bytes)
    (hne : w.writerQueue ≠ [] → current.body ≠ []) :
    (w.writerQueue ++ [StreamProcessor.lastPacket current]).map Packet.frame =
      canonicalMessage w.stream.requestId bytes := by
  have hids : ∀ p ∈ w.writerQueue ++ [StreamProcessor.lastPacket current], p.requestId = w.stream.requestId := by
    intro p hp
    rcases List.mem_append.1 hp with hp | hp
    · exact h.ids p (List.mem_append_left _ hp)
    · rw [List.mem_singleton.1 hp]
      exact h.ids current (List.mem_append_right _ List.mem_cons_self)
  have hchunks : chunks maxPacketSize bytes = w.writerQueue.map Packet.body ++ [current.body] := by
    rw [← h.bodies]
    refine chunks_eq (by decide) _ _ (fun piece hpiece => ?_) h.size (fun hq => hne (by simpa using hq))
    obtain ⟨p, hp, rfl⟩ := List.mem_map.1 hpiece
    exact h.full p hp
  rw [map_frame hids, h.lastTypes, canonicalMessage, hchunks, List.length_append, List.length_map, List.map_append]
  rfl

/-- **A message is put as the canonical split of its bytes**, however they were split into writes; only the one packet
of an empty message is empty. -/
theorem writes_canonical (requestId : RequestId) (bufs : List (List UInt8)) (hbufs : bufs ≠ []) :
    ∃ w, (fresh requestId).send addrs bufs = .ok w ∧
      w.writerQueue.map Packet.frame = canonicalMessage requestId bufs.flatten ∧
      ∀ p ∈ w.writerQueue, p.body = [] → bufs.flatten = [] := by
  obtain ⟨buf, bufs, rfl⟩ := List.exists_cons_of_ne_nil hbufs
  obtain ⟨h1, hid1⟩ := wrote_first addrs requestId buf
  obtain ⟨⟨current, hc, hfill, hne⟩, hid⟩ := h1.writes addrs bufs
  rw [hid1] at hid
  rw [send, List.foldl_cons]
  rw [← List.flatten_cons] at hfill
  generalize bufs.foldl (write addrs) ((fresh requestId).write addrs buf) = w at hc hfill hne hid ⊢
  have htype : current.type = .start ∨ current.type = .middle := by
    have hmem : current.type ∈ (w.writerQueue ++ [current]).map Packet.type := List.mem_map_of_mem (by simp)
    rw [hfill.types] at hmem
    exact (List.mem_cons.1 hmem).imp id List.eq_of_mem_replicate
  have hflush : ∃ next, w.flush addrs = .ok ⟨{ w.stream with currentWritePacket := some next },
      w.writerQueue ++ [StreamProcessor.lastPacket current], w.acquired + 1⟩ := by
    unfold flush
    rw [hc]
    dsimp only
    rw [ffAssert_of htype]
    exact ⟨_, rfl⟩
  obtain ⟨next, hflush⟩ := hflush
  refine ⟨_, hflush, hid ▸ hfill.frames hne, fun p hp hempty => ?_⟩
  rw [← hfill.bodies]
  rcases List.mem_append.1 hp with hp | hp
  · have hlen := hfill.full p hp
    rw [hempty] at hlen
    cases hlen
  · rw [List.mem_singleton.1 hp] at hempty
    have hnil : w.writerQueue = [] := by
      by_contra hq
      exact hne hq hempty
    rw [hnil]
    exact hempty

/-- Three bytes in two writes, the second of them empty. -/
theorem writes_canonical_small : ∃ w, (fresh 5).send id [[1, 2, 3], []] = .ok w ∧
    w.writerQueue.map Packet.frame = canonicalMessage 5 [[1, 2, 3], []].flatten ∧
    ∀ p ∈ w.writerQueue, p.body = [] → [[1, 2, 3], ([] : List UInt8)].flatten = [] :=
  writes_canonical id 5 [[1, 2, 3], []] (List.cons_ne_nil _ _)

end StreamWriter

/-! ## The turns of an owner -/

namespace StreamProcessor

open StreamWriter

variable {s s' : StreamProcessor} {o : StreamNo} {put : List Packet} {bytes buf : List UInt8}

/-- The owner of `o` has put the packets `put`, and has written `bytes` once it has the packets it waits for. -/
def Writes (s : StreamProcessor) (o : StreamNo) (put : List Packet) (bytes : List UInt8) : Prop :=
  match s.fibers o with
  | .acquiring type rest => ∃ before, before ++ rest = bytes ∧ (put ≠ [] → rest ≠ []) ∧
      ∀ p : Packet, p.body = [] → p.type = type → p.requestId = (s.streams o).requestId →
        Filling ⟨s.streams o, put, 0⟩ p before
  | _ => Wrote ⟨s.streams o, put, 0⟩ bytes

/-- The owner of `o` put some more packets, and so has written `bytes`. -/
def Advances (s : StreamProcessor) (o : StreamNo) (put : List Packet) (bytes : List UInt8) (s' : StreamProcessor) :
    Prop :=
  ∃ more : List Packet, s'.writerQueue = s.writerQueue ++ more.map some ∧
    (s'.streams o).requestId = (s.streams o).requestId ∧ s'.Writes o (put ++ more) bytes

theorem advances_fill {current : Packet} (h : Filling ⟨s.streams o, put, 0⟩ current bytes)
    (hne : put ≠ [] → current.body ++ buf ≠ []) :
    s.Advances o put (bytes ++ buf) (s.fillWritePacket o current buf) := by
  have hbody := current.writeData_body buf
  rcases fillWritePacket_eq s o current buf with ⟨hrest, heq⟩ | ⟨hrest, heq⟩
  · refine ⟨[], by rw [heq]; rfl, by rw [heq]; simp [ownerStep], ?_⟩
    rw [hrest, List.append_nil] at hbody
    rw [heq, List.append_nil]
    simp only [Writes, ownerStep, Function.update_self]
    exact ⟨_, rfl, (h.writeData hrest).congr rfl rfl, fun hq => hbody ▸ hne hq⟩
  · refine ⟨[(current.writeData buf).1], by rw [heq]; rfl, by rw [heq]; simp [ownerStep], ?_⟩
    rw [heq]
    simp only [Writes, ownerStep, Function.update_self]
    refine ⟨bytes ++ buf.take (maxPacketSize - current.body.length), ?_, fun _ => hrest, fun p hp ht hid => ?_⟩
    · rw [List.append_assoc, Packet.writeData, List.take_append_drop]
    · exact ((h.writeFits buf).putPacket (Packet.length_writeData h.size hrest) hp ht hid).congr rfl rfl

/-- **A packet that is acquired, or waited for, is filled with the rest.** -/
theorem advances_acquire (hn : s.Neat) {type : PacketType} {rest : List UInt8} (hne : put ≠ [] → rest ≠ [])
    (h : ∀ p : Packet, p.body = [] → p.type = type → p.requestId = (s.streams o).requestId →
      Filling ⟨s.streams o, put, 0⟩ p bytes) :
    s.Advances o put (bytes ++ rest) (s.acquireWritePacket o type rest) := by
  rcases acquireWritePacket_eq hn o type rest with ⟨-, heq⟩ | ⟨p, pool, hblank, heq⟩
  · refine ⟨[], by rw [heq]; rfl, by rw [heq]; simp [ownerStep], ?_⟩
    rw [heq, List.append_nil]
    simp only [Writes, ownerStep, Function.update_self]
    exact ⟨bytes, rfl, hne, h⟩
  · obtain ⟨-, hbody, -, -⟩ := hblank
    rw [heq]
    exact advances_fill (s := { s with packetsPool := pool }) (h _ hbody rfl rfl)
      (fun hq => List.append_ne_nil_of_right_ne_nil _ (hne hq))

theorem owner_of_write (hw : s.write o buf = some s') :
    s.fibers o = .running ∧ (((s.streams o).currentWritePacket = none ∧ s' = s.acquireWritePacket o .start buf) ∨
      ∃ p, (s.streams o).currentWritePacket = some p ∧ s' = s.fillWritePacket o p buf) := by
  have ht : Turn s (.write o buf) s' := turn_of_event hw
  cases ht with
  | writeFirst ho hf hc => exact ⟨hf, Or.inl ⟨hc, rfl⟩⟩
  | writeMore ho hf hc hlast => exact ⟨hf, Or.inr ⟨_, hc, rfl⟩⟩

/-- **The first write of a message.** -/
theorem advances_first (hn : s.Neat) (hc : (s.streams o).currentWritePacket = none) (hw : s.write o buf = some s') :
    s.Advances o [] buf s' := by
  obtain ⟨-, ⟨-, rfl⟩ | ⟨p, hp, -⟩⟩ := owner_of_write hw
  · rw [← List.nil_append buf]
    refine advances_acquire hn (fun hq => absurd rfl hq) (fun p hbody htype hid => ?_)
    refine ⟨by rw [hbody]; rfl, nofun, by rw [hbody]; exact Nat.zero_le _, ?_, ?_⟩
    · rw [List.nil_append, List.map_singleton, htype]
      rfl
    intro q hq
    rw [List.mem_singleton.1 hq]
    exact hid
  · rw [hc] at hp
    cases hp

theorem Writes.write (h : s.Writes o put bytes) (hw : s.write o buf = some s') :
    s.Advances o put (bytes ++ buf) s' := by
  obtain ⟨hf, hcases⟩ := owner_of_write hw
  unfold Writes at h
  rw [hf] at h
  obtain ⟨current, hc, hfill, hne⟩ := h
  rcases hcases with ⟨hnone, -⟩ | ⟨p, hp, rfl⟩
  · rw [hnone] at hc
    cases hc
  · rw [hp] at hc
    cases hc
    exact advances_fill hfill (fun hq => List.append_ne_nil_of_left_ne_nil (hne hq) _)

/-- **The wait for a packet ends.** -/
theorem Writes.acquire (hn : s.Neat) (h : s.Writes o put bytes) (ha : s.acquire o = some s') :
    s.Advances o put bytes s' := by
  have ht : Turn s (.acquire o) s' := turn_of_event ha
  cases ht with
  | acquire ho hf hpool =>
    unfold Writes at h
    rw [hf] at h
    obtain ⟨before, rfl, hne, hfill⟩ := h
    exact advances_acquire hn hne hfill

theorem writes_iff (hf : ∀ type rest, s.fibers o ≠ .acquiring type rest) :
    s.Writes o put bytes ↔ Wrote ⟨s.streams o, put, 0⟩ bytes := by
  unfold Writes
  cases h : s.fibers o with
  | acquiring type rest => exact absurd h (hf type rest)
  | running => exact Iff.rfl
  | reading len buf => exact Iff.rfl

/-- What other fibers do, and what the owner reads, leaves its writing alone. -/
theorem Writes.congr (h : s.Writes o put bytes) (hid : (s'.streams o).requestId = (s.streams o).requestId)
    (hc : (s'.streams o).currentWritePacket = (s.streams o).currentWritePacket)
    (hf : ∀ type rest, s'.fibers o = .acquiring type rest ↔ s.fibers o = .acquiring type rest) :
    s'.Writes o put bytes := by
  by_cases hacq : ∃ type rest, s.fibers o = .acquiring type rest
  · obtain ⟨type, rest, hacq⟩ := hacq
    unfold Writes at h ⊢
    rw [hacq] at h
    rw [(hf type rest).2 hacq]
    obtain ⟨before, hb, hne, hfill⟩ := h
    exact ⟨before, hb, hne, fun p hbody htype hpid => (hfill p hbody htype (hpid.trans hid)).congr rfl hid⟩
  · have hnot : ∀ type rest, s.fibers o ≠ .acquiring type rest := fun type rest he => hacq ⟨type, rest, he⟩
    rw [writes_iff hnot] at h
    rw [writes_iff fun type rest he => hnot type rest ((hf type rest).1 he)]
    obtain ⟨current, hcur, hfill, hne⟩ := h
    exact ⟨current, hc.trans hcur, hfill.congr rfl hid, hne⟩

/-- **The flush puts the rest of the canonical split.** -/
theorem Writes.flush (h : s.Writes o put bytes) (hn : s.Neat) (hw : s.flush o = some s') :
    ∃ last, s'.writerQueue = s.writerQueue ++ [some last] ∧
      (put ++ [last]).map Packet.frame = canonicalMessage (s.streams o).requestId bytes := by
  have ht : Turn s (.flush o) s' := turn_of_event hw
  cases ht with
  | @flush _ p ho hf hcur hlast =>
    unfold Writes at h
    rw [hf] at h
    obtain ⟨current, hc, hfill, hne⟩ := h
    rw [hcur] at hc
    cases hc
    refine ⟨lastPacket p, ?_, hfill.frames hne⟩
    have hput := (hn.setStream (o := o) (hn.streams o).noWritePacket).putPacket
      (written_lastPacket ((hn.streams o).write p hcur).1)
    obtain ⟨f, ps, pool, heq, -⟩ := acquireWritePacket_end (o := o) hput
      (by simp [StreamProcessor.putPacket, setStream])
    rw [heq]
    simp [ownerStep, StreamProcessor.putPacket, setStream]

/-- Since its first write the owner of `o` has put `put` and written `bytes`, whatever happened in between. -/
inductive Sends (o : StreamNo) : StreamProcessor → List Packet → List UInt8 → Prop where
  | first {s s' : StreamProcessor} {put : List Packet} {buf : List UInt8}
    (hn : s.Neat) (hc : (s.streams o).currentWritePacket = none) (hw : s.write o buf = some s')
    (hput : s'.writerQueue = s.writerQueue ++ put.map some) : Sends o s' put buf
  | write {s s' : StreamProcessor} {put more : List Packet} {bytes buf : List UInt8}
    (h : Sends o s put bytes) (hw : s.write o buf = some s')
    (hput : s'.writerQueue = s.writerQueue ++ more.map some) : Sends o s' (put ++ more) (bytes ++ buf)
  | acquire {s s' : StreamProcessor} {put more : List Packet} {bytes : List UInt8}
    (h : Sends o s put bytes) (hn : s.Neat) (ha : s.acquire o = some s')
    (hput : s'.writerQueue = s.writerQueue ++ more.map some) : Sends o s' (put ++ more) bytes
  | other {s s' : StreamProcessor} {put : List Packet} {bytes : List UInt8} (h : Sends o s put bytes)
    (hid : (s'.streams o).requestId = (s.streams o).requestId)
    (hc : (s'.streams o).currentWritePacket = (s.streams o).currentWritePacket)
    (hf : ∀ type rest, s'.fibers o = .acquiring type rest ↔ s.fibers o = .acquiring type rest) : Sends o s' put bytes

/-- The packets an owner put are known from the queue. -/
theorem writes_of_advances (h : s.Advances o put bytes s') {more : List Packet}
    (hput : s'.writerQueue = s.writerQueue ++ more.map some) : s'.Writes o (put ++ more) bytes := by
  obtain ⟨more', hput', -, hw⟩ := h
  rw [hput] at hput'
  rwa [List.map_injective_iff.2 (Option.some_injective Packet) (List.append_cancel_left hput')]

theorem Sends.writes : ∀ {s : StreamProcessor} {put : List Packet} {bytes : List UInt8}, Sends o s put bytes →
    s.Writes o put bytes
  | _, _, _, .first hn hc hw hput => writes_of_advances (advances_first hn hc hw) hput
  | _, _, _, .write h hw hput => writes_of_advances (h.writes.write hw) hput
  | _, _, _, .acquire h hn ha hput => writes_of_advances (h.writes.acquire hn ha) hput
  | _, _, _, .other h hid hc hf => h.writes.congr hid hc hf

/-- **In any interleaving the owner of a stream puts its message as the canonical split.** -/
theorem Sends.flush {s : StreamProcessor} (h : Sends o s put bytes) (hn : s.Neat) (hw : s.flush o = some s') :
    ∃ last, s'.writerQueue = s.writerQueue ++ [some last] ∧
      (put ++ [last]).map Packet.frame = canonicalMessage (s.streams o).requestId bytes := h.writes.flush hn hw

end StreamProcessor
end Mrpc
