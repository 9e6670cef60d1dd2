import MultiplexingRpc.WriterFiber
import MultiplexingRpc.Unflushed
import MultiplexingRpc.RequestIds
/-!
# ByteConnection — a connection that carries bytes

`Connection` hands whole packets from one side to the other.  Here the transport holds what `mrpc_packet_write_to_stream`
wrote, byte by byte, and a reader decodes what it finds with `mrpc_packet_read_from_stream`.  A write may fail after any
number of its bytes went out, even after all of them; a read that finds too little waits, or fails when the connection
does.
-/
namespace Mrpc

/-! ## Packets among bytes -/

/-- What a packet with these contents is on the wire. -/
def Frame.encoding (f : Frame) : List UInt8 := Packet.encoding ⟨0, f.type, f.requestId, f.body, 0⟩

/-- The frame that was read into a packet. -/
def PacketMemory.frame (m : PacketMemory) : Frame := ⟨m.type, m.requestId.toFin, m.body⟩

/-- A packet just reset, with whatever its buffer holds. -/
def PacketMemory.blank (buf : Vector UInt8 maxPacketSize) : PacketMemory := ⟨buf, 0, 0, .start, 0⟩

theorem PacketMemory.fresh_blank (buf : Vector UInt8 maxPacketSize) : (PacketMemory.blank buf).Fresh := rfl

theorem Packet.Written.encoding_eq {p : Packet} (h : p.Written) : p.encoding = p.frame.encoding := by
  have hmem : p.toMemory = Packet.toMemory ⟨0, p.type, p.requestId, p.body, 0⟩ := by
    unfold Packet.toMemory
    rw [h.1]
  unfold Packet.encoding Frame.encoding Packet.encoding Packet.frame
  rw [hmem]

theorem Packet.Written.body_toMemory {p : Packet} (h : p.Written) : p.toMemory.body = p.body := by
  have hmax : maxPacketSize = 4095 := rfl
  have hlen := h.2
  have hsize : (Int32.ofNat p.body.length).toInt = p.body.length := Int32.toInt_ofNat_of_lt (by omega)
  have hnat : (Int32.ofNat p.body.length).toInt.toNat = p.body.length := by omega
  show (storeBytes _ p.body).toList.take (Int32.ofNat p.body.length).toInt.toNat = p.body
  rw [hnat]
  exact toList_storeBytes_take _ _ hlen

namespace PacketMemory

variable {m m' : PacketMemory} {bytes rest : List UInt8}

theorem ffStreamRead_append_of {stream rest : List UInt8} {buf buf' : Vector UInt8 maxPacketSize} {len : Int}
    (h : ffStreamRead stream buf len = .ok (.success, buf', rest)) (more : List UInt8) :
    ffStreamRead (stream ++ more) buf len = .ok (.success, buf', rest ++ more) := by
  unfold ffStreamRead at h ⊢
  by_cases hlen : 0 ≤ len
  · rw [ffAssert_of hlen, ok_bind] at h ⊢
    by_cases hmax : (maxPacketSize : Int) < len
    · rw [if_pos hmax] at h
      cases h
    · rw [if_neg hmax] at h
      rw [if_neg hmax]
      by_cases hshort : (stream.length : Int) < len
      · rw [if_pos hshort] at h
        cases h
      · rw [if_neg hshort] at h
        have hle : len.toNat ≤ stream.length := by omega
        simp only [Except.ok.injEq, Prod.mk.injEq, true_and] at h
        rw [if_neg (by rw [List.length_append]; omega), List.take_append_of_le_length hle,
          List.drop_append_of_le_length hle, h.1, h.2]
  · rw [ffAssert, if_neg hlen] at h
    cases h

/-- **A read that succeeds does not look at what follows.** -/
theorem readFromStream_append (hm : m.Fresh) (h : m.readFromStream bytes = .ok (.success, m', rest))
    (more : List UInt8) : m.readFromStream (bytes ++ more) = .ok (.success, m', rest ++ more) := by
  have hcurr : m.currPos = 0 := by rw [← hm]; rfl
  have hzero : m.size = 0 := by rw [← hm]; rfl
  unfold readFromStream at h ⊢
  rw [ffAssert_of hcurr, ok_bind, ffAssert_of hzero, ok_bind] at h ⊢
  cases bytes with
  | nil => cases h
  | cons requestId stream =>
    rw [List.cons_append]
    dsimp only at h ⊢
    generalize hu : uint32Unserialize 0 stream = u at h
    obtain ⟨result, tmp, left⟩ := u
    cases result with
    | failure => cases h
    | success =>
      obtain ⟨octets, rfl, hall⟩ := uint32Unserialize_split hu
      rw [List.append_assoc, hall]
      dsimp only at h ⊢
      split at h
      · cases h
      · rename_i hsize
        rw [if_neg hsize]
        generalize hr : ffStreamRead left m.buf (tmp >>> 2).toInt32.toInt = r at h
        cases r with
        | error e => cases h
        | ok r =>
          obtain ⟨result, buf, left'⟩ := r
          cases h
          rw [ffStreamRead_append_of hr, ok_bind]

end PacketMemory

namespace Frame

variable {f g : Frame} {fs : List Frame} {m m' : PacketMemory} {rest : List UInt8}

/-- The body fits into a packet. -/
def Small (f : Frame) : Prop := f.body.length ≤ maxPacketSize

theorem small_nil (t : PacketType) (r : RequestId) : Small ⟨t, r, []⟩ := Nat.zero_le _

theorem Small.written (h : f.Small) : Packet.Written ⟨0, f.type, f.requestId, f.body, 0⟩ := ⟨rfl, h⟩

theorem Small.encoding_ne_nil (h : f.Small) : f.encoding ≠ [] := h.written.encoding_ne_nil

/-- **A packet is read back from its encoding**, whatever follows it. -/
theorem Small.read (h : f.Small) (hm : m.Fresh) (rest : List UInt8) :
    ∃ m', m.readFromStream (f.encoding ++ rest) = .ok (.success, m', rest) ∧ m'.frame = f := by
  have hlossless : OutStream.Lossless ⟨[], []⟩ := by
    intro o ho
    cases ho
  obtain ⟨header, stream, -, hwrite, hwrote, hread⟩ := PacketMemory.writeToStream_spec h.written.complete hlossless
  have henc : f.encoding = header ++ (Packet.toMemory ⟨0, f.type, f.requestId, f.body, 0⟩).body := by
    unfold encoding Packet.encoding
    rw [hwrite]
    exact hwrote.written
  obtain ⟨m', -, hcontent, hm'⟩ := hread m rest hm
  rw [← henc] at hm'
  refine ⟨m', hm', ?_⟩
  have hbody := h.written.body_toMemory
  simp only [PacketMemory.content, Packet.toMemory, Prod.mk.injEq] at hcontent hbody
  obtain ⟨hid, htype, hcontent⟩ := hcontent
  unfold PacketMemory.frame
  rw [hid, htype, hcontent, hbody]
  rfl

/-- **A part of an encoding is no packet.** -/
theorem Small.not_read_take (h : f.Small) (hm : m.Fresh) {k : Nat} (hk : k < f.encoding.length) :
    m.readFromStream (f.encoding.take k) ≠ .ok (.success, m', rest) := by
  intro hread
  have happ := PacketMemory.readFromStream_append hm hread (f.encoding.drop k)
  obtain ⟨m'', hfull, -⟩ := h.read hm []
  rw [List.take_append_drop] at happ
  rw [List.append_nil, happ] at hfull
  have hdrop : f.encoding.drop k = [] := by
    simp only [Except.ok.injEq, Prod.mk.injEq, List.append_eq_nil_iff] at hfull
    exact hfull.2.2.2
  rw [List.drop_eq_nil_iff] at hdrop
  omega

end Frame

/-! ## The transport of one direction -/

namespace StreamProcessor

variable {s s' : StreamProcessor} {fs : List Frame} {bytes : List UInt8}

/-- The bytes on the way from `s` are those of the packets `fs`, and a part of one whose write failed, after which `s`
writes no more. -/
structure Wired (s : StreamProcessor) (fs : List Frame) (bytes : List UInt8) : Prop where
  small : ∀ f ∈ fs, f.Small
  bytes : ∃ (f : Frame) (k : Nat), f.Small ∧ k < f.encoding.length ∧ (k ≠ 0 → s.writer.sends = false) ∧
    bytes = fs.flatMap Frame.encoding ++ f.encoding.take k

theorem Wired.of_whole (hsmall : ∀ f ∈ fs, f.Small) : s.Wired fs (fs.flatMap Frame.encoding) := by
  have hempty : Frame.Small ⟨.single, 0, []⟩ := Frame.small_nil _ _
  refine ⟨hsmall, _, 0, hempty, List.length_pos_iff.2 (Frame.Small.encoding_ne_nil hempty), fun h => absurd rfl h, ?_⟩
  rw [List.take_zero, List.append_nil]

theorem Wired.mono (h : s.Wired fs bytes) (hw : s'.writer.sends = true → s.writer.sends = true) : s'.Wired fs bytes := by
  obtain ⟨f, k, hf, hk, hmute, heq⟩ := h.bytes
  refine ⟨h.small, f, k, hf, hk, fun hne => ?_, heq⟩
  cases hs : s'.writer.sends with
  | false => rfl
  | true => rw [← hmute hne, hw hs]

/-- A writer that still sends has left nothing unfinished. -/
theorem Wired.whole (h : s.Wired fs bytes) (hw : s.writer.sends = true) : bytes = fs.flatMap Frame.encoding := by
  obtain ⟨f, k, -, -, hmute, heq⟩ := h.bytes
  by_cases hk : k = 0
  · rw [heq, hk, List.take_zero, List.append_nil]
  · rw [hmute hk] at hw
    cases hw

/-- **The reader finds the next packet**, or none. -/
theorem Wired.read (h : s.Wired fs bytes) {m m' : PacketMemory} (hm : m.Fresh) {rest : List UInt8}
    (hread : m.readFromStream bytes = .ok (.success, m', rest)) : ∃ fs', fs = m'.frame :: fs' ∧ s.Wired fs' rest := by
  obtain ⟨f, k, hf, hk, hmute, heq⟩ := h.bytes
  cases fs with
  | nil =>
    rw [List.flatMap_nil, List.nil_append] at heq
    rw [heq] at hread
    exact absurd hread (hf.not_read_take hm hk)
  | cons g fs =>
    rw [List.flatMap_cons, List.append_assoc] at heq
    obtain ⟨m'', hread', hframe⟩ := (h.small g List.mem_cons_self).read hm (fs.flatMap Frame.encoding ++ f.encoding.take k)
    rw [heq, hread'] at hread
    simp only [Except.ok.injEq, Prod.mk.injEq, true_and] at hread
    obtain ⟨rfl, rfl⟩ := hread
    exact ⟨fs, by rw [hframe], fun g hg => h.small g (List.mem_cons_of_mem _ hg), f, k, hf, hk, hmute, rfl⟩

/-- **The writer hands over a packet**, or a part of it, or all of it and fails nevertheless. -/
theorem Wired.write (h : s.Wired fs bytes) (hn : s.Neat) {p : Packet} (hw : s.writer = .writing p) {result : FfResult}
    {outcomes : List (Option Nat)} {out : OutStream}
    (hout : p.toMemory.writeToStream ⟨[], outcomes⟩ = .ok (result, out)) (hs : s.event (.writerResult result) = some s') :
    ∃ sent, (sent = (s.sends (.writerResult result)).toList ∨ result = .failure ∧ sent = [p.frame]) ∧
      s'.Wired (fs ++ sent) (bytes ++ out.written) := by
  have hp : p.Written := hn.writer p (by rw [hw]; exact List.mem_singleton_self p)
  have hsmall : p.frame.Small := hp.2
  have hwhole := h.whole (by rw [hw]; rfl)
  have hmore : ∀ f ∈ fs ++ [p.frame], f.Small := fun f hf => by
    rcases List.mem_append.1 hf with hf | hf
    · exact h.small f hf
    · rw [List.mem_singleton.1 hf]
      exact hsmall
  have hall : s'.Wired (fs ++ [p.frame]) (bytes ++ p.encoding) := by
    rw [hwhole, hp.encoding_eq]
    simpa using Wired.of_whole (s := s') hmore
  rcases hp.handsOver ⟨[], outcomes⟩ with ⟨out', hok, hwritten⟩ | ⟨out', k, hfail, hwritten⟩
  · rw [hok] at hout
    cases hout
    rw [List.nil_append] at hwritten
    refine ⟨[p.frame], Or.inl (by rw [sends, hw]; rfl), ?_⟩
    rw [hwritten]
    exact hall
  · rw [hfail] at hout
    cases hout
    rw [List.nil_append] at hwritten
    by_cases hk : k < p.encoding.length
    · have hmute : s'.writer.sends = false := by
        simp only [event, writerResult, hw] at hs
        cases hs
        rfl
      refine ⟨[], Or.inl (by simp [sends]), ?_⟩
      rw [hwritten, hwhole, List.append_nil]
      rw [hp.encoding_eq] at hk ⊢
      exact ⟨h.small, p.frame, k, hsmall, hk, fun _ => hmute, rfl⟩
    · refine ⟨[p.frame], Or.inr ⟨rfl, rfl⟩, ?_⟩
      rw [hwritten, List.take_of_length_le (by omega)]
      exact hall

/-- A writer that gave up does not begin again. -/
theorem Turn.sends_mono (hs : s.Sound) {e : Event} (ht : Turn s e s') (h : s'.writer.sends = true) :
    s.writer.sends = true := by
  cases ho : e.owner with
  | some o =>
    obtain ⟨-, ps, f, pool, queue, -, -, rfl⟩ := ht.ownerFrame hs.fiberOk ho
    exact h
  | none =>
    cases ht.system ho with
    | writerGet hw | writeOk hw | flushOk hw => simp [hw, Writer.sends]
    | writerSkip hw => exact h
    | writerEnd | writeFail | flushFail => cases h
    | _ => exact h

end StreamProcessor

theorem ClientStreamProcessor.sends_mono {c c' : ClientStreamProcessor} {a : Action} (hc : c.Sound)
    (ha : a ≠ .processStream) (hs : c.step a = some c') (h : c'.core.writer.sends = true) :
    c.core.writer.sends = true := by
  cases outcome_of_step hs with
  | event ht => exact ht.sends_mono hc.core h
  | processNothing | process => exact absurd rfl ha
  | deleted =>
    rw [StreamProcessor.releaseStream_eq] at h
    exact h
  | _ => exact h

theorem ServerStreamProcessor.sends_mono {s s' : StreamProcessor} {a : Action} (hc : Sound s) (ha : a ≠ .readerStart)
    (hs : step s a = some s') (h : s'.writer.sends = true) : s.writer.sends = true := by
  cases outcome_of_step hs with
  | event ht => exact ht.sends_mono hc.core h
  | readerStart => exact absurd rfl ha
  | returned | failed =>
    rw [StreamProcessor.releaseStream_eq] at h
    exact h
  | _ => exact h

namespace Connection

variable {x : Connection}

/-! ## A packet that goes out although its write fails -/

/-- What a failed write leaves of an end. -/
theorem endOf_of_writeFail {s s' : StreamProcessor} {p : Packet} (hw : s.writer = .writing p)
    (hs : s.event (.writerResult .failure) = some s') (r : RequestId) :
    s'.endOf r = { s.endOf r with writing := false, outbound := [] } := by
  simp only [StreamProcessor.event, StreamProcessor.writerResult, hw] at hs
  cases hs
  rfl

theorem client_sendFail (hx : x.Sound) (ho : x.Owing) {p : Packet} (hw : x.client.core.writer = .writing p)
    {c : ClientStreamProcessor} (hc : x.client.step (.event (.writerResult .failure)) = some c) (r : RequestId) :
    let k := (x.clientNext c [p.frame] x.toClient (x.client.deedOn (.event (.writerResult .failure)))).lane r
    k.Inv ∧ k.Owing := by
  dsimp only
  obtain ⟨core, hcore, rfl⟩ := Option.map_eq_some_iff.1 hc
  have ht := StreamProcessor.turn_of_event hcore
  have hactive : core.active r = x.client.core.active r := by rw [(ht.table hx.client.sound.core.fiberOk).1]
  have hend := endOf_of_writeFail hw hcore r
  have hd : x.client.deedOn (.event (.writerResult .failure)) r = .nothing :=
    StreamProcessor.deedOn_of_none (s := x.client.core) (e := .writerResult .failure) rfl r
  have hstate : core.state ≠ .working := by
    simp only [StreamProcessor.event, StreamProcessor.writerResult, hw] at hcore
    cases hcore
    exact StreamProcessor.stopAsync_ne_working _
  rw [lane_clientNext (count_of_active hactive), hd, note_nothing, hend]
  by_cases hr : p.requestId = r
  · -- the packet goes out, and the writer gives up
    have hout := StreamProcessor.outbound_writing hw r
    rw [if_pos hr] at hout
    have hsends := Lane.Step.clientSend (k := x.lane r) hout
    have hsent := (hx.lanes r).step hsends
    have howed := (ho r).step (hx.lanes r) hsends (hx.holds r).1 (hx.holds r).2
    have hfail := hsent.step (.client (w := decide (core.state = .working)) .mute (by simp [hstate]) (by simp [hstate]))
    have howe := howed.step hsent
      (.client (w := decide (core.state = .working)) .mute (by simp [hstate]) (by simp [hstate])) (hx.holds r).1 (hx.holds r).2
    rw [note_nothing] at hfail howe
    have hfilter : ([p.frame].filter fun f => f.requestId = r) = [p.frame] := by simp [Packet.frame, hr]
    rw [hfilter]
    exact ⟨hfail, howe⟩
  · have hfails := Lane.Step.client (k := x.lane r) (w := decide (core.state = .working)) .mute (by simp [hstate])
      (by simp [hstate])
    have hfail := (hx.lanes r).step hfails
    have howe := (ho r).step (hx.lanes r) hfails (hx.holds r).1 (hx.holds r).2
    rw [note_nothing] at hfail howe
    have hfilter : ([p.frame].filter fun f => f.requestId = r) = [] := by simp [Packet.frame, hr]
    rw [hfilter, List.append_nil]
    exact ⟨hfail, howe⟩

theorem server_sendFail (hx : x.Sound) (ho : x.Owing) {p : Packet} (hw : x.server.writer = .writing p) {s : StreamProcessor}
    (hs : ServerStreamProcessor.step x.server (.event (.writerResult .failure)) = some s) (r : RequestId) :
    let k := (x.serverNext s [p.frame] x.toServer
      (ServerStreamProcessor.deedOn x.server (.event (.writerResult .failure)))).lane r
    k.Inv ∧ k.Owing := by
  dsimp only
  have hs : x.server.event (.writerResult .failure) = some s := hs
  have ht := StreamProcessor.turn_of_event hs
  have hactive : s.active r = x.server.active r := by rw [(ht.table hx.server.core.fiberOk).1]
  have hend := endOf_of_writeFail hw hs r
  have hd : ServerStreamProcessor.deedOn x.server (.event (.writerResult .failure)) r = .nothing :=
    StreamProcessor.deedOn_of_none (s := x.server) (e := .writerResult .failure) rfl r
  rw [lane_serverNext (count_of_active hactive), hd, note_nothing, hend]
  by_cases hr : p.requestId = r
  · have hout := StreamProcessor.outbound_writing hw r
    rw [if_pos hr] at hout
    have hsends := Lane.Step.serverSend (k := x.lane r) hout
    have hsent := (hx.lanes r).step hsends
    have howed := (ho r).step (hx.lanes r) hsends (hx.holds r).1 (hx.holds r).2
    have hfail := hsent.step (.server .mute (by simp) (by simp))
    have howe := howed.step hsent (.server .mute (by simp) (by simp)) (hx.holds r).1 (hx.holds r).2
    rw [note_nothing] at hfail howe
    have hfilter : ([p.frame].filter fun f => f.requestId = r) = [p.frame] := by simp [Packet.frame, hr]
    rw [hfilter]
    exact ⟨hfail, howe⟩
  · have hfails := Lane.Step.server (k := x.lane r) .mute (by simp) (by simp)
    have hfail := (hx.lanes r).step hfails
    have howe := (ho r).step (hx.lanes r) hfails (hx.holds r).1 (hx.holds r).2
    rw [note_nothing] at hfail howe
    have hfilter : ([p.frame].filter fun f => f.requestId = r) = [] := by simp [Packet.frame, hr]
    rw [hfilter, List.append_nil]
    exact ⟨hfail, howe⟩

end Connection

/-! ## Both directions -/

/-- Two processors, the bytes on their way, and the logs of `Connection`. -/
structure ByteConnection where
  client : ClientStreamProcessor
  server : StreamProcessor
  toServer : List UInt8
  toClient : List UInt8
  calls : RequestId → Nat → Log
  callCnt : RequestId → Nat
  handlers : RequestId → Nat → Log
  handlerCnt : RequestId → Nat

namespace ByteConnection

/-- `client a` and `server a`: a step that does not touch the transport; a writer's step writes the packet it has in
hand, with the outcomes of the calls of `ff_stream_write`, and a reader's step reads the next packet into a buffer. -/
inductive Action where
  | client (a : ClientStreamProcessor.Action)
  | clientWrites (outcomes : List (Option Nat))
  | clientReads (buf : Vector UInt8 maxPacketSize)
  | server (a : ServerStreamProcessor.Action)
  | serverWrites (outcomes : List (Option Nat))
  | serverReads (buf : Vector UInt8 maxPacketSize) (o : StreamNo)

/-- The connection with these packets on their way. -/
def withFrames (x : ByteConnection) (toServer toClient : List Frame) : Connection :=
  ⟨x.client, x.server, toServer, toClient, x.calls, x.callCnt, x.handlers, x.handlerCnt⟩

/-- The processors and logs of `y`, with these bytes on their way. -/
def withBytes (y : Connection) (toServer toClient : List UInt8) : ByteConnection :=
  ⟨y.client, y.server, toServer, toClient, y.calls, y.callCnt, y.handlers, y.handlerCnt⟩

/-- Both sides serve the connection, and nothing has happened yet. -/
def established : ByteConnection := withBytes .established [] []

/-- The writer has a packet in hand and `e` is the outcome of its write. -/
def writes (s : StreamProcessor) (e : StreamProcessor.Event) : Bool :=
  match s.writer, e with
  | .writing _, .writerResult _ => true
  | _, _ => false

def clientWriting (x : ByteConnection) : ClientStreamProcessor.Action → Bool
  | .event e => writes x.client.core e
  | _ => false

def serverWriting (x : ByteConnection) : ServerStreamProcessor.Action → Bool
  | .event e => writes x.server e
  | _ => false

/-- The writer of `s` writes the packet in hand: the result, and what went out. -/
def handOver (s : StreamProcessor) (outcomes : List (Option Nat)) : Option (FfResult × List UInt8) :=
  match s.writer with
  | .writing p =>
    match p.toMemory.writeToStream ⟨[], outcomes⟩ with
    | .ok (result, out) => some (result, out.written)
    | .error _ => none
  | _ => none

/-- The next packet of `bytes`, read into a buffer, with what follows it. -/
def take (buf : Vector UInt8 maxPacketSize) (bytes : List UInt8) : Option (Frame × List UInt8) :=
  match (PacketMemory.blank buf).readFromStream bytes with
  | .ok (.success, m, rest) => some (m.frame, rest)
  | _ => none

def step (x : ByteConnection) : Action → Option ByteConnection
  | .client a =>
    if x.clientWriting a then none
    else ((x.withFrames [] []).clientStep a).map fun y => withBytes y x.toServer x.toClient
  | .clientWrites outcomes =>
    (handOver x.client.core outcomes).bind fun (result, bytes) =>
      ((x.withFrames [] []).clientStep (.event (.writerResult result))).map fun y =>
        withBytes y (x.toServer ++ bytes) x.toClient
  | .clientReads buf =>
    (take buf x.toClient).bind fun (f, rest) =>
      ((x.withFrames [] [f]).clientStep (.receive f)).map fun y => withBytes y x.toServer rest
  | .server a =>
    if x.serverWriting a then none
    else ((x.withFrames [] []).serverStep a).map fun y => withBytes y x.toServer x.toClient
  | .serverWrites outcomes =>
    (handOver x.server outcomes).bind fun (result, bytes) =>
      ((x.withFrames [] []).serverStep (.event (.writerResult result))).map fun y =>
        withBytes y x.toServer (x.toClient ++ bytes)
  | .serverReads buf o =>
    (take buf x.toServer).bind fun (f, rest) =>
      ((x.withFrames [f] []).serverStep (.receive f o)).map fun y => withBytes y rest x.toClient

/-- The two sides keep to the protocol of `Connection.Conforms`. -/
def Conforms (x : ByteConnection) : Action → Prop
  | .client a => (x.withFrames [] []).Conforms (.client a)
  | .server a => (x.withFrames [] []).Conforms (.server a)
  | .clientWrites _ | .clientReads _ | .serverWrites _ | .serverReads _ _ => True

instance (x : ByteConnection) (a : Action) : Decidable (x.Conforms a) :=
  match a with
  | .client a => inferInstanceAs (Decidable ((x.withFrames [] []).Conforms (.client a)))
  | .server a => inferInstanceAs (Decidable ((x.withFrames [] []).Conforms (.server a)))
  | .clientWrites _ | .clientReads _ | .serverWrites _ | .serverReads _ _ => inferInstanceAs (Decidable True)

/-! ## Its packets -/

variable {x x' : ByteConnection} {ts tc : List Frame}

/-- The bytes under way are those of the packets `ts` and `tc`, with which the connection is sound. -/
structure Framed (x : ByteConnection) (ts tc : List Frame) : Prop where
  sound : (x.withFrames ts tc).Sound
  owing : (x.withFrames ts tc).Owing
  waiters : x.client.waiters = 0
  toServer : x.client.core.Wired ts x.toServer
  toClient : x.server.Wired tc x.toClient

theorem framed_established : established.Framed [] [] :=
  ⟨Connection.sound_established, Connection.owing_established, rfl, .of_whole (by simp), .of_whole (by simp)⟩

theorem clientStep_withFrames {a : ClientStreamProcessor.Action} {y : Connection} {ts₀ tc₀ tc' : List Frame}
    (h : (x.withFrames ts₀ tc₀).clientStep a = some y) (hremains : ClientStreamProcessor.remains a tc = some tc') :
    (x.withFrames ts tc).step (.client a) = some { y with toServer := ts ++ x.client.sent a, toClient := tc' } := by
  obtain ⟨toClient, c, -, hc, rfl⟩ := Connection.clientStep_cases h
  show (ClientStreamProcessor.remains a tc).bind _ = _
  have hc : x.client.step a = some c := hc
  rw [hremains, Option.bind_some]
  show (x.client.step a).map _ = _
  rw [hc]
  rfl

theorem serverStep_withFrames {a : ServerStreamProcessor.Action} {y : Connection} {ts₀ tc₀ ts' : List Frame}
    (h : (x.withFrames ts₀ tc₀).serverStep a = some y) (hremains : ServerStreamProcessor.remains a ts = some ts') :
    (x.withFrames ts tc).step (.server a)
      = some { y with toServer := ts', toClient := tc ++ ServerStreamProcessor.sent x.server a } := by
  obtain ⟨toServer, s, -, hs, rfl⟩ := Connection.serverStep_cases h
  show (ServerStreamProcessor.remains a ts).bind _ = _
  have hs : ServerStreamProcessor.step x.server a = some s := hs
  rw [hremains, Option.bind_some]
  show (ServerStreamProcessor.step x.server a).map _ = _
  rw [hs]
  rfl

theorem sends_of_not_writes {s : StreamProcessor} {e : StreamProcessor.Event} (h : writes s e = false) :
    s.sends e = none := by
  cases e with
  | writerResult result =>
    cases result with
    | failure => rfl
    | success =>
      unfold StreamProcessor.sends
      unfold writes at h
      cases hw : s.writer with
      | writing p =>
        rw [hw] at h
        cases h
      | _ => rfl
  | _ => rfl

theorem client_sent (x : ByteConnection) {a : ClientStreamProcessor.Action} (h : ¬ x.clientWriting a = true) :
    x.client.sent a = [] := by
  cases a with
  | event e =>
    show (x.client.core.sends e).toList = []
    rw [sends_of_not_writes (Bool.not_eq_true _ ▸ h)]
    rfl
  | _ => rfl

theorem server_sent (x : ByteConnection) {a : ServerStreamProcessor.Action} (h : ¬ x.serverWriting a = true) :
    ServerStreamProcessor.sent x.server a = [] := by
  cases a with
  | event e =>
    show (x.server.sends e).toList = []
    rw [sends_of_not_writes (Bool.not_eq_true _ ▸ h)]
    rfl
  | _ => rfl

theorem writing_of_handOver {s : StreamProcessor} {outcomes : List (Option Nat)} {result : FfResult} {bytes : List UInt8}
    (h : handOver s outcomes = some (result, bytes)) : ∃ p out, s.writer = .writing p ∧
      p.toMemory.writeToStream ⟨[], outcomes⟩ = .ok (result, out) ∧ bytes = out.written := by
  unfold handOver at h
  split at h
  · rename_i p hw
    split at h
    · rename_i result' out hout
      cases h
      exact ⟨p, out, hw, hout, rfl⟩
    · cases h
  · cases h

theorem read_of_take {buf : Vector UInt8 maxPacketSize} {bytes rest : List UInt8} {f : Frame}
    (h : take buf bytes = some (f, rest)) :
    ∃ m, (PacketMemory.blank buf).readFromStream bytes = .ok (.success, m, rest) ∧ f = m.frame := by
  unfold take at h
  split at h
  · rename_i m rest' hread
    cases h
    exact ⟨m, hread, rfl⟩
  · cases h

/-! ## Steps of the client -/

section Client

variable {a : ClientStreamProcessor.Action} {y : Connection} {ts₀ tc₀ tc' : List Frame}

/-- The processors and logs after a step of the client, with the packets that it takes and sends. -/
theorem Framed.clientStep (h : x.Framed ts tc) (hC : (x.withFrames [] []).Conforms (.client a))
    (hremains : ClientStreamProcessor.remains a tc = some tc') (hy : (x.withFrames ts₀ tc₀).clientStep a = some y) :
    let z : Connection := { y with toServer := ts ++ x.client.sent a, toClient := tc' }
    (z.Sound ∧ z.Owing) ∧ y.client.waiters = 0 ∧ x.client.step a = some y.client ∧ y.server = x.server := by
  have hstep : (x.withFrames ts tc).step (.client a)
      = some { y with toServer := ts ++ x.client.sent a, toClient := tc' } := clientStep_withFrames hy hremains
  have hconf : (x.withFrames ts tc).Conforms (.client a) := hC
  have hwaiters := hconf.waiters h.waiters hstep
  have hpermitted := hconf.permitted h.waiters
  refine ⟨⟨h.sound.step hpermitted hstep, h.owing.step h.sound hpermitted hstep⟩, hwaiters, ?_⟩
  obtain ⟨toClient, c, -, hc, rfl⟩ := Connection.clientStep_cases hy
  exact ⟨hc, rfl⟩

theorem remains_client_nil {rest : List Frame} (h : ClientStreamProcessor.remains a [] = some rest) (tc : List Frame) :
    ClientStreamProcessor.remains a tc = some tc := by
  cases a with
  | receive | processStream => cases h
  | _ => rfl

theorem Framed.client (h : x.Framed ts tc) (hquiet : x.client.sent a = [])
    (hC : (x.withFrames [] []).Conforms (.client a)) (hy : (x.withFrames [] []).clientStep a = some y) :
    (withBytes y x.toServer x.toClient).Framed ts tc := by
  obtain ⟨_, _, hremains, -, -⟩ := Connection.clientStep_cases hy
  have hne := ClientStreamProcessor.ne_processStream_of_remains hremains
  obtain ⟨⟨hsound, howing⟩, hwaiters, hc, hserver⟩ := h.clientStep hC (remains_client_nil hremains tc) hy
  rw [hquiet, List.append_nil] at hsound howing
  refine ⟨hsound, howing, hwaiters, h.toServer.mono (ClientStreamProcessor.sends_mono h.sound.client.sound hne hc), ?_⟩
  show y.server.Wired tc x.toClient
  rw [hserver]
  exact h.toClient

theorem Framed.clientWrites (h : x.Framed ts tc) {outcomes : List (Option Nat)} {result : FfResult} {bytes : List UInt8}
    (ho : handOver x.client.core outcomes = some (result, bytes))
    (hy : (x.withFrames [] []).clientStep (.event (.writerResult result)) = some y) :
    ∃ ts', (withBytes y (x.toServer ++ bytes) x.toClient).Framed ts' tc := by
  obtain ⟨p, out, hw, hout, rfl⟩ := writing_of_handOver ho
  have hremains : ClientStreamProcessor.remains (.event (.writerResult result)) tc = some tc := rfl
  obtain ⟨⟨hsound, howing⟩, hwaiters, hc, hserver⟩ :=
    h.clientStep (a := .event (.writerResult result)) trivial hremains hy
  obtain ⟨core, hcore, hclient⟩ := Option.map_eq_some_iff.1 hc
  have hcore' : y.client.core = core := by rw [← hclient]
  obtain ⟨sent, hsent, hwired⟩ := h.toServer.write h.sound.clientNeat hw hout hcore
  have hother : y.server.Wired tc x.toClient := by
    rw [hserver]
    exact h.toClient
  have hconnection : ((withBytes y (x.toServer ++ out.written) x.toClient).withFrames (ts ++ sent) tc).Sound ∧
      ((withBytes y (x.toServer ++ out.written) x.toClient).withFrames (ts ++ sent) tc).Owing := by
    rcases hsent with rfl | ⟨rfl, rfl⟩
    · exact ⟨hsound, howing⟩
    · -- all of the packet went out, and the write failed nevertheless
      have hlanes := Connection.client_sendFail h.sound h.owing hw hc
      obtain ⟨toClient, c, hremains, hc', rfl⟩ := Connection.clientStep_cases hy
      exact ⟨⟨hsound.client, hsound.clientNeat, hsound.clientLined, hsound.server, hsound.serverNeat, hsound.serverLined,
        fun r => (hlanes r).1⟩, fun r => (hlanes r).2⟩
  exact ⟨ts ++ sent, hconnection.1, hconnection.2, hwaiters, hcore' ▸ hwired, hother⟩

theorem Framed.clientReads (h : x.Framed ts tc) {buf : Vector UInt8 maxPacketSize} {f : Frame} {rest : List UInt8}
    (ht : take buf x.toClient = some (f, rest)) (hy : (x.withFrames [] [f]).clientStep (.receive f) = some y) :
    ∃ tc', (withBytes y x.toServer rest).Framed ts tc' := by
  obtain ⟨m, hread, rfl⟩ := read_of_take ht
  obtain ⟨tc', rfl, hwired⟩ := h.toClient.read (PacketMemory.fresh_blank buf) hread
  have hremains : ClientStreamProcessor.remains (.receive m.frame) (m.frame :: tc') = some tc' := if_pos rfl
  obtain ⟨⟨hsound, howing⟩, hwaiters, hc, hserver⟩ := h.clientStep (a := .receive m.frame) trivial hremains hy
  have hsent : x.client.sent (.receive m.frame) = [] := rfl
  rw [hsent, List.append_nil] at hsound howing
  refine ⟨tc', hsound, howing, hwaiters, h.toServer.mono (ClientStreamProcessor.sends_mono h.sound.client.sound (by simp) hc), ?_⟩
  show y.server.Wired tc' rest
  rw [hserver]
  exact hwired

end Client

/-! ## Steps of the server -/

section Server

variable {a : ServerStreamProcessor.Action} {y : Connection} {ts₀ tc₀ ts' : List Frame}

theorem Framed.serverStep (h : x.Framed ts tc) (hC : (x.withFrames [] []).Conforms (.server a))
    (hremains : ServerStreamProcessor.remains a ts = some ts') (hy : (x.withFrames ts₀ tc₀).serverStep a = some y) :
    let z : Connection := { y with toServer := ts', toClient := tc ++ ServerStreamProcessor.sent x.server a }
    (z.Sound ∧ z.Owing) ∧ ServerStreamProcessor.step x.server a = some y.server ∧ y.client = x.client := by
  have hstep : (x.withFrames ts tc).step (.server a)
      = some { y with toServer := ts', toClient := tc ++ ServerStreamProcessor.sent x.server a } :=
    serverStep_withFrames hy hremains
  have hconf : (x.withFrames ts tc).Conforms (.server a) := hC
  have hpermitted := hconf.permitted h.waiters
  refine ⟨⟨h.sound.step hpermitted hstep, h.owing.step h.sound hpermitted hstep⟩, ?_⟩
  obtain ⟨toServer, s, -, hs, rfl⟩ := Connection.serverStep_cases hy
  exact ⟨hs, rfl⟩

theorem remains_server_nil {rest : List Frame} (h : ServerStreamProcessor.remains a [] = some rest) (ts : List Frame) :
    ServerStreamProcessor.remains a ts = some ts := by
  cases a with
  | receive | start | readerStart => cases h
  | _ => rfl

theorem Framed.server (h : x.Framed ts tc) (hquiet : ServerStreamProcessor.sent x.server a = [])
    (hC : (x.withFrames [] []).Conforms (.server a)) (hy : (x.withFrames [] []).serverStep a = some y) :
    (withBytes y x.toServer x.toClient).Framed ts tc := by
  obtain ⟨_, _, hremains, -, -⟩ := Connection.serverStep_cases hy
  have hne := ServerStreamProcessor.ne_readerStart_of_remains hremains
  obtain ⟨⟨hsound, howing⟩, hs, hclient⟩ := h.serverStep hC (remains_server_nil hremains ts) hy
  rw [hquiet, List.append_nil] at hsound howing
  refine ⟨hsound, howing, ?_, ?_, h.toClient.mono (ServerStreamProcessor.sends_mono h.sound.server hne hs)⟩
  · show y.client.waiters = 0
    rw [hclient]
    exact h.waiters
  · show y.client.core.Wired ts x.toServer
    rw [hclient]
    exact h.toServer

theorem Framed.serverWrites (h : x.Framed ts tc) {outcomes : List (Option Nat)} {result : FfResult} {bytes : List UInt8}
    (ho : handOver x.server outcomes = some (result, bytes))
    (hy : (x.withFrames [] []).serverStep (.event (.writerResult result)) = some y) :
    ∃ tc', (withBytes y x.toServer (x.toClient ++ bytes)).Framed ts tc' := by
  obtain ⟨p, out, hw, hout, rfl⟩ := writing_of_handOver ho
  have hremains : ServerStreamProcessor.remains (.event (.writerResult result)) ts = some ts := rfl
  obtain ⟨⟨hsound, howing⟩, hs, hclient⟩ := h.serverStep (a := .event (.writerResult result)) trivial hremains hy
  obtain ⟨sent, hsent, hwired⟩ := h.toClient.write h.sound.serverNeat hw hout hs
  have hwaiters : y.client.waiters = 0 := by
    rw [hclient]
    exact h.waiters
  have hother : y.client.core.Wired ts x.toServer := by
    rw [hclient]
    exact h.toServer
  have hconnection : ((withBytes y x.toServer (x.toClient ++ out.written)).withFrames ts (tc ++ sent)).Sound ∧
      ((withBytes y x.toServer (x.toClient ++ out.written)).withFrames ts (tc ++ sent)).Owing := by
    rcases hsent with rfl | ⟨rfl, rfl⟩
    · exact ⟨hsound, howing⟩
    · have hlanes := Connection.server_sendFail h.sound h.owing hw hs
      obtain ⟨toServer, s, hremains, hs', rfl⟩ := Connection.serverStep_cases hy
      exact ⟨⟨hsound.client, hsound.clientNeat, hsound.clientLined, hsound.server, hsound.serverNeat, hsound.serverLined,
        fun r => (hlanes r).1⟩, fun r => (hlanes r).2⟩
  exact ⟨tc ++ sent, hconnection.1, hconnection.2, hwaiters, hother, hwired⟩

theorem Framed.serverReads (h : x.Framed ts tc) {buf : Vector UInt8 maxPacketSize} {o : StreamNo} {f : Frame}
    {rest : List UInt8} (ht : take buf x.toServer = some (f, rest))
    (hy : (x.withFrames [f] []).serverStep (.receive f o) = some y) :
    ∃ ts', (withBytes y rest x.toClient).Framed ts' tc := by
  obtain ⟨m, hread, rfl⟩ := read_of_take ht
  obtain ⟨ts', rfl, hwired⟩ := h.toServer.read (PacketMemory.fresh_blank buf) hread
  have hremains : ServerStreamProcessor.remains (.receive m.frame o) (m.frame :: ts') = some ts' := if_pos rfl
  obtain ⟨⟨hsound, howing⟩, hs, hclient⟩ := h.serverStep (a := .receive m.frame o) trivial hremains hy
  have hsent : ServerStreamProcessor.sent x.server (.receive m.frame o) = [] := rfl
  rw [hsent, List.append_nil] at hsound howing
  refine ⟨ts', hsound, howing, ?_, ?_, h.toClient.mono (ServerStreamProcessor.sends_mono h.sound.server (by simp) hs)⟩
  · show y.client.waiters = 0
    rw [hclient]
    exact h.waiters
  · show y.client.core.Wired ts' rest
    rw [hclient]
    exact hwired

end Server

/-! ## Runs -/

/-- **Every step of a conforming connection keeps the packets apart.** -/
theorem Framed.step (h : x.Framed ts tc) {a : Action} (hC : x.Conforms a) (hs : x.step a = some x') :
    ∃ ts' tc', x'.Framed ts' tc' := by
  cases a with
  | client a =>
    simp only [ByteConnection.step] at hs
    split at hs
    · cases hs
    · rename_i hw
      obtain ⟨y, hy, rfl⟩ := Option.map_eq_some_iff.1 hs
      exact ⟨ts, tc, h.client (x.client_sent hw) hC hy⟩
  | clientWrites outcomes =>
    obtain ⟨⟨result, bytes⟩, ho, hs⟩ := Option.bind_eq_some_iff.1 hs
    obtain ⟨y, hy, rfl⟩ := Option.map_eq_some_iff.1 hs
    obtain ⟨ts', hx⟩ := h.clientWrites ho hy
    exact ⟨ts', tc, hx⟩
  | clientReads buf =>
    obtain ⟨⟨f, rest⟩, ht, hs⟩ := Option.bind_eq_some_iff.1 hs
    obtain ⟨y, hy, rfl⟩ := Option.map_eq_some_iff.1 hs
    obtain ⟨tc', hx⟩ := h.clientReads ht hy
    exact ⟨ts, tc', hx⟩
  | server a =>
    simp only [ByteConnection.step] at hs
    split at hs
    · cases hs
    · rename_i hw
      obtain ⟨y, hy, rfl⟩ := Option.map_eq_some_iff.1 hs
      exact ⟨ts, tc, h.server (x.server_sent hw) hC hy⟩
  | serverWrites outcomes =>
    obtain ⟨⟨result, bytes⟩, ho, hs⟩ := Option.bind_eq_some_iff.1 hs
    obtain ⟨y, hy, rfl⟩ := Option.map_eq_some_iff.1 hs
    obtain ⟨tc', hx⟩ := h.serverWrites ho hy
    exact ⟨ts, tc', hx⟩
  | serverReads buf o =>
    obtain ⟨⟨f, rest⟩, ht, hs⟩ := Option.bind_eq_some_iff.1 hs
    obtain ⟨y, hy, rfl⟩ := Option.map_eq_some_iff.1 hs
    obtain ⟨ts', hx⟩ := h.serverReads ht hy
    exact ⟨ts', tc, hx⟩

/-- A reader finds the next of the packets, and none if only a part of one is there. -/
theorem take_eq {s : StreamProcessor} {fs : List Frame} {bytes : List UInt8} (h : s.Wired fs bytes)
    (buf : Vector UInt8 maxPacketSize) : (take buf bytes).map Prod.fst = fs.head? := by
  cases ht : take buf bytes with
  | some found =>
    obtain ⟨f, rest⟩ := found
    obtain ⟨m, hread, rfl⟩ := read_of_take ht
    obtain ⟨fs', rfl, -⟩ := h.read (PacketMemory.fresh_blank buf) hread
    rfl
  | none =>
    cases fs with
    | nil => rfl
    | cons f fs =>
      obtain ⟨g, k, -, -, -, heq⟩ := h.bytes
      obtain ⟨m, hread, -⟩ := (h.small f List.mem_cons_self).read (PacketMemory.fresh_blank buf)
        (fs.flatMap Frame.encoding ++ g.encoding.take k)
      rw [List.flatMap_cons, List.append_assoc] at heq
      rw [take, heq, hread] at ht
      cases ht

theorem framed_of_exec (as : List Action) (hC : Run.Meets step Conforms established as)
    (hrun : Run.exec step established as = some x) : ∃ ts tc, x.Framed ts tc :=
  Run.invariant (P := fun x => ∃ ts tc, x.Framed ts tc) (fun _ _ _ hx hC hs => by
    obtain ⟨ts, tc, hx⟩ := hx
    exact hx.step hC hs) as ⟨[], [], framed_established⟩ hC hrun

theorem Framed.readsFrom (h : x.Framed ts tc) (r : RequestId) (n : Nat) :
    (x.calls r n).ReadsFrom (x.handlers r n) ∧ (x.handlers r n).ReadsFrom (x.calls r n) := by
  obtain ⟨hcall, hhandler⟩ := (h.sound.lanes r).received_le n
  obtain ⟨hcall', hhandler'⟩ := (h.sound.lanes r).delivered_le n
  exact ⟨⟨hcall, hcall'⟩, ⟨hhandler, hhandler'⟩⟩

/-- **Calls do not mix on a transport of bytes either**, wherever it fails: the bytes of each direction are whole packets
and at most a part of one, a reader gets the next of these packets as it was written or has to wait, and what a call reads
comes from its handler, what a handler reads from its call. -/
theorem calls_apart (as : List Action) (x : ByteConnection) (hC : Run.Meets step Conforms established as)
    (hrun : Run.exec step established as = some x) :
    (∃ ts tc, x.client.core.Wired ts x.toServer ∧ x.server.Wired tc x.toClient ∧
      ∀ buf, (take buf x.toServer).map Prod.fst = ts.head? ∧ (take buf x.toClient).map Prod.fst = tc.head?) ∧
    ∀ r n, (x.calls r n).ReadsFrom (x.handlers r n) ∧ (x.handlers r n).ReadsFrom (x.calls r n) := by
  obtain ⟨ts, tc, hx⟩ := framed_of_exec as hC hrun
  exact ⟨⟨ts, tc, hx.toServer, hx.toClient, fun buf => ⟨take_eq hx.toServer buf, take_eq hx.toClient buf⟩⟩,
    hx.readsFrom⟩

/-- A request of one byte goes out and is read on the other side. -/
def request : List Action :=
  [.client (.createRequestStream 0), .client (.event (.write 0 [7])), .client (.event (.flush 0)),
    .client (.event .writer), .clientWrites [], .server (.event .reader),
    .serverReads (Vector.replicate maxPacketSize 0) 0]

set_option maxRecDepth 100000 in
theorem calls_apart_request : ∃ x, Run.exec step established request = some x ∧ (x.handlers 0 0).arrived = [7] ∧
    (x.handlers 0 0).ReadsFrom (x.calls 0 0) := by
  have hC : Run.Meets step Conforms established request := Run.meets_of_check _ (by decide +kernel)
  obtain ⟨x, hrun⟩ : ∃ x, Run.exec step established request = some x :=
    Option.isSome_iff_exists.1 (by decide +kernel)
  have harrived : (Run.exec step established request).map (fun x => (x.handlers 0 0).arrived) = some [7] := by
    decide +kernel
  rw [hrun] at harrived
  exact ⟨x, hrun, Option.some.inj harrived, ((calls_apart request x hC hrun).2 0 0).2⟩

end ByteConnection
end Mrpc
