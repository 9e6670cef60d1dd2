import MultiplexingRpc.PacketStream
/-!
# StreamReads — whole calls of `mrpc_packet_stream_read`

`PacketStream` says what a read does up to its next wait.  Here a read runs to its end on the packets that are in the
queue: a wait takes the next one, and a wait on an empty queue ends with `READ_TIMEOUT`.  The reads of a stream are then
reads from a byte string, the bodies of the longest legal prefix of the queue (`reads_slices`); a disconnected stream
never waits again if it has, or will come to, the first packet of a message (`unblocksReads_iff`).
-/
namespace Mrpc

/-- What a read comes to; `timedOut` is the failure of a wait on an empty queue. -/
inductive ReadResult where
  | success (buf : List UInt8)
  | failure
  | timedOut
  deriving DecidableEq, Repr

/-- A finished read: the stream after it, its result, and the packets it released. -/
structure FinishedRead where
  stream : PacketStream
  result : ReadResult
  released : List Packet
  deriving DecidableEq, Repr

/-- A read that released packets before it got this far. -/
def FinishedRead.after (f : FinishedRead) (released : List Packet) : FinishedRead :=
  { f with released := released ++ f.released }

def ReadOutcome.prepend (b : List UInt8) : ReadOutcome → ReadOutcome
  | success buf => success (b ++ buf)
  | failure => failure
  | waits len buf => waits len (b ++ buf)

def ReadResult.prepend (b : List UInt8) : ReadResult → ReadResult
  | success buf => success (b ++ buf)
  | failure => failure
  | timedOut => timedOut

/-- A read that returned `b`, and the one after it, taken for one. -/
def FinishedRead.joined (f : FinishedRead) (b : List UInt8) (g : FinishedRead) : FinishedRead :=
  ⟨g.stream, g.result.prepend b, f.released ++ g.released⟩

namespace PacketStream

/-! ## Whole calls -/

theorem length_of_readNext {ps ps' : PacketStream} {len : Nat} {buf : List UInt8} {released : Option Packet}
    {outcome : ReadOutcome} (h : ps.readNext len buf = some (released, ps', outcome)) :
    ps'.readerQueue.length < ps.readerQueue.length := by
  obtain ⟨p, queue, hq, ⟨-, -, rfl, -⟩ | ⟨-, -, rfl, -⟩⟩ := readNext_cases h
  · rw [hq]; exact Nat.lt_succ_self _
  · rw [hq]; exact Nat.lt_succ_self _

/-- The rest of a read that got as far as `outcome`. -/
def resume (ps : PacketStream) (outcome : ReadOutcome) : FinishedRead :=
  match outcome with
  | .success buf => ⟨ps, .success buf, []⟩
  | .failure => ⟨ps, .failure, []⟩
  | .waits len buf =>
    match _h : ps.readNext len buf with
    | none => ⟨ps, .timedOut, []⟩
    | some (released, ps', outcome') => (resume ps' outcome').after released.toList
termination_by ps.readerQueue.length
decreasing_by exact length_of_readNext _h

/-- A call of `mrpc_packet_stream_read`. -/
def readCall (ps : PacketStream) (len : Nat) : FinishedRead := resume (ps.read len).1 (ps.read len).2

/-- Calls one after another. -/
def readCalls : PacketStream → List Nat → List FinishedRead
  | _, [] => []
  | ps, len :: lens => ps.readCall len :: readCalls (ps.readCall len).stream lens

/-- The stream after them. -/
def afterReads : PacketStream → List Nat → PacketStream
  | ps, [] => ps
  | ps, len :: lens => afterReads (ps.readCall len).stream lens

theorem resume_success (ps : PacketStream) (buf : List UInt8) : ps.resume (.success buf) = ⟨ps, .success buf, []⟩ := by
  rw [resume]

theorem resume_failure (ps : PacketStream) : ps.resume .failure = ⟨ps, .failure, []⟩ := by rw [resume]

theorem resume_waits_nil {ps : PacketStream} (hq : ps.readerQueue = []) (len : Nat) (buf : List UInt8) :
    ps.resume (.waits len buf) = ⟨ps, .timedOut, []⟩ := by
  rw [resume]
  split
  · rfl
  · rename_i h
    obtain ⟨p, queue, hq', -⟩ := readNext_cases h
    rw [hq] at hq'
    cases hq'

theorem resume_waits {ps ps' : PacketStream} {len : Nat} {buf : List UInt8} {released : Option Packet}
    {outcome : ReadOutcome} (h : ps.readNext len buf = some (released, ps', outcome)) :
    ps.resume (.waits len buf) = (ps'.resume outcome).after released.toList := by
  rw [resume]
  split
  · rename_i h'
    rw [h] at h'
    cases h'
  · rename_i h'
    rw [h] at h'
    cases h'
    rfl

/-- A read that waits takes the next packet, or refuses it. -/
theorem resume_waits_cons {ps : PacketStream} {p : Packet} {queue : List Packet} (hq : ps.readerQueue = p :: queue)
    (len : Nat) (buf : List UInt8) :
    (p.type.isFirst = ps.currentReadPacket.isNone ∧ ps.resume (.waits len buf) =
      (resume { ps with readerQueue := queue, currentReadPacket := some (copy p len buf).1 } (copy p len buf).2).after
        ps.currentReadPacket.toList) ∨
    (p.type.isFirst = ps.currentReadPacket.isSome ∧
      ps.resume (.waits len buf) = ⟨{ ps with readerQueue := queue }, .failure, [p]⟩) := by
  have hnext : ps.readNext len buf ≠ none := by
    unfold readNext
    rw [hq]
    cases ps.currentReadPacket with
    | none => dsimp only; split <;> simp
    | some c => dsimp only; split <;> simp
  obtain ⟨⟨released, ps', outcome⟩, h⟩ := Option.ne_none_iff_exists'.1 hnext
  obtain ⟨p', queue', hq', ⟨ht, rfl, rfl, rfl⟩ | ⟨ht, rfl, rfl, rfl⟩⟩ := readNext_cases h
  · rw [hq] at hq'
    cases hq'
    exact Or.inl ⟨ht, resume_waits h⟩
  · rw [hq] at hq'
    cases hq'
    exact Or.inr ⟨ht, by rw [resume_waits h, resume_failure]; rfl⟩

/-! ## The bytes ahead -/

/-- What may follow the first packet of a message: `MIDDLE`s and possibly one `END`. -/
def continuation : List Packet → List Packet
  | [] => []
  | p :: queue =>
    match p.type with
    | .middle => p :: continuation queue
    | .end_ => [p]
    | _ => []

/-- The longest prefix of a queue that is a `SINGLE`, or a `START` and what may follow it. -/
def legalPrefix : List Packet → List Packet
  | [] => []
  | p :: queue =>
    match p.type with
    | .single => [p]
    | .start => p :: continuation queue
    | _ => []

/-- What may follow a packet in its message. -/
def afterPacket (p : Packet) (queue : List Packet) : List Packet := if p.type.isLast then [] else continuation queue

/-- The bytes that reads can still return. -/
def ahead (ps : PacketStream) : List UInt8 :=
  match ps.currentReadPacket with
  | none => (legalPrefix ps.readerQueue).flatMap Packet.rest
  | some current => current.rest ++ (afterPacket current ps.readerQueue).flatMap Packet.rest

theorem continuation_cons {p : Packet} (h : p.type.isFirst = false) (queue : List Packet) :
    continuation (p :: queue) = p :: afterPacket p queue := by
  unfold continuation afterPacket
  cases ht : p.type <;> simp_all [PacketType.isFirst, PacketType.isLast]

theorem legalPrefix_cons {p : Packet} (h : p.type.isFirst = true) (queue : List Packet) :
    legalPrefix (p :: queue) = p :: afterPacket p queue := by
  unfold legalPrefix afterPacket
  cases ht : p.type <;> simp_all [PacketType.isFirst, PacketType.isLast]

theorem continuation_cons_of_first {p : Packet} (h : p.type.isFirst = true) (queue : List Packet) :
    continuation (p :: queue) = [] := by
  unfold continuation
  cases ht : p.type <;> simp_all [PacketType.isFirst]

theorem legalPrefix_cons_of_not {p : Packet} (h : p.type.isFirst = false) (queue : List Packet) :
    legalPrefix (p :: queue) = [] := by
  unfold legalPrefix
  cases ht : p.type <;> simp_all [PacketType.isFirst]

theorem afterPacket_of_not_isLast {p : Packet} (h : p.type.isLast = false) (queue : List Packet) :
    afterPacket p queue = continuation queue := by
  rw [afterPacket, h]
  rfl

theorem ahead_of_some {ps : PacketStream} {p : Packet} (hc : ps.currentReadPacket = some p) :
    ps.ahead = p.rest ++ (afterPacket p ps.readerQueue).flatMap Packet.rest := by
  unfold ahead
  rw [hc]

/-- With its current packet used up a stream has only the queue ahead. -/
theorem ahead_of_spent {ps : PacketStream} {p : Packet} (hc : ps.currentReadPacket = some p) (hrest : p.rest = [])
    (hlast : p.type.isLast = false) : ps.ahead = (continuation ps.readerQueue).flatMap Packet.rest := by
  rw [ahead_of_some hc, hrest, List.nil_append, afterPacket_of_not_isLast hlast]

/-- A read of `len` bytes with `buf` read so far returns what is ahead, if there is enough. -/
def FinishesWith (f : FinishedRead) (buf bytes : List UInt8) (len : Nat) : Prop :=
  if len ≤ bytes.length then f.result = .success (buf ++ bytes.take len) ∧ f.stream.ahead = bytes.drop len
  else ∀ b, f.result ≠ .success b

theorem copy_of_le {p : Packet} {len : Nat} (h : len ≤ p.rest.length) (buf : List UInt8) :
    (copy p len buf).2 = .success (buf ++ p.rest.take len) ∧ (copy p len buf).1.rest = p.rest.drop len := by
  have htake : (p.rest.take len).length = len := List.length_take_of_le h
  have hcopy : copy p len buf = ({ p with currPos := p.currPos + len }, .success (buf ++ p.rest.take len)) := by
    simp [copy, Packet.readData, htake]
  rw [hcopy]
  exact ⟨rfl, by rw [Packet.rest, Packet.rest, List.drop_drop]⟩

theorem copy_of_lt {p : Packet} {len : Nat} (h : p.rest.length < len) (buf : List UInt8) :
    (copy p len buf).2 = (if p.type.isLast then .failure else .waits (len - p.rest.length) (buf ++ p.rest)) ∧
      (copy p len buf).1.rest = [] := by
  have htake : p.rest.take len = p.rest := List.take_of_length_le h.le
  have hrest : p.body.drop (p.currPos + p.rest.length) = [] := by
    rw [← List.drop_drop, ← Packet.rest, List.drop_length]
  unfold copy Packet.readData
  dsimp only
  rw [htake, if_neg (by omega)]
  split
  · exact ⟨rfl, hrest⟩
  · exact ⟨rfl, hrest⟩

/-- **A read goes on from its current packet**, if it goes on right from the queue when that is used up. -/
theorem finishesWith_copy (ps : PacketStream) (p : Packet) (len : Nat) (buf : List UInt8)
    (hwaits : ∀ (p' : Packet) (n : Nat) (b : List UInt8), p'.rest = [] → p'.type = p.type → p.type.isLast = false →
      1 ≤ n → FinishesWith (resume { ps with currentReadPacket := some p' } (.waits n b)) b
        ((continuation ps.readerQueue).flatMap Packet.rest) n) :
    FinishesWith (resume { ps with currentReadPacket := some (copy p len buf).1 } (copy p len buf).2) buf
      (p.rest ++ (afterPacket p ps.readerQueue).flatMap Packet.rest) len := by
  have htype := type_copy p len buf
  by_cases hle : len ≤ p.rest.length
  · obtain ⟨hout, hrest⟩ := copy_of_le hle buf
    unfold FinishesWith
    rw [if_pos (by rw [List.length_append]; omega), hout, resume_success]
    refine ⟨by rw [List.take_append_of_le_length hle], ?_⟩
    rw [ahead, List.drop_append_of_le_length hle]
    dsimp only
    rw [hrest, afterPacket, htype, afterPacket]
  · obtain ⟨hout, hrest⟩ := copy_of_lt (not_le.1 hle) buf
    cases hlast : p.type.isLast with
    | true =>
      unfold FinishesWith
      rw [afterPacket, hlast, hout, hlast, if_pos rfl, if_pos rfl, resume_failure, List.flatMap_nil, List.append_nil,
        if_neg hle]
      exact fun b hb => nomatch hb
    | false =>
      have h := hwaits (copy p len buf).1 (len - p.rest.length) (buf ++ p.rest) hrest htype hlast (by omega)
      rw [hlast, if_neg (by simp)] at hout
      rw [hout, afterPacket_of_not_isLast hlast]
      unfold FinishesWith at h ⊢
      rw [List.length_append]
      have hge : p.rest.length ≤ len := by omega
      by_cases hn : len - p.rest.length ≤ ((continuation ps.readerQueue).flatMap Packet.rest).length
      · rw [if_pos hn] at h
        rw [if_pos (by omega), h.1, h.2, List.take_append, List.drop_append, List.take_of_length_le hge,
          List.drop_of_length_le hge, List.nil_append, List.append_assoc]
        exact ⟨rfl, rfl⟩
      · rw [if_neg hn] at h
        rw [if_neg (by omega)]
        exact h

/-- **A read that waits returns what is ahead in the queue**, if there is enough. -/
theorem finishesWith_waits : ∀ (queue : List Packet) (ps : PacketStream), ps.readerQueue = queue →
    (∀ c ∈ ps.currentReadPacket, c.rest = [] ∧ c.type.isLast = false) → ∀ (len : Nat) (buf : List UInt8), 1 ≤ len →
    FinishesWith (ps.resume (.waits len buf)) buf ps.ahead len
  | [], ps, hq, hspent, len, buf, hlen => by
    have hahead : ps.ahead = [] := by
      cases hc : ps.currentReadPacket with
      | none => simp [ahead, hc, hq, legalPrefix]
      | some c => rw [ahead_of_spent hc (hspent c hc).1 (hspent c hc).2, hq]; rfl
    rw [resume_waits_nil hq, hahead]
    unfold FinishesWith
    rw [if_neg (by rw [List.length_nil]; omega)]
    exact fun b hb => nomatch hb
  | p :: queue, ps, hq, hspent, len, buf, hlen => by
    rcases resume_waits_cons hq len buf with ⟨htype, heq⟩ | ⟨htype, heq⟩
    · -- the packet continues the message, or begins it
      have hahead : ps.ahead = p.rest ++ (afterPacket p queue).flatMap Packet.rest := by
        cases hc : ps.currentReadPacket with
        | none =>
          rw [hc] at htype
          simp only [ahead, hc, hq, legalPrefix_cons htype, List.flatMap_cons]
        | some c =>
          rw [hc] at htype
          rw [ahead_of_spent hc (hspent c hc).1 (hspent c hc).2, hq, continuation_cons htype, List.flatMap_cons]
      rw [heq, hahead]
      exact finishesWith_copy { ps with readerQueue := queue } p len buf (fun p' n b hrest htype' hlast hn => by
        have h := finishesWith_waits queue { ps with readerQueue := queue, currentReadPacket := some p' } rfl
          (by rintro c ⟨⟩; exact ⟨hrest, by rw [htype', hlast]⟩) n b hn
        rwa [ahead_of_spent rfl hrest (by rw [htype', hlast])] at h)
    · -- the packet is of a wrong type, and no legal prefix goes past it
      have hahead : ps.ahead = [] := by
        cases hc : ps.currentReadPacket with
        | none =>
          rw [hc] at htype
          simp only [ahead, hc, hq, legalPrefix_cons_of_not htype, List.flatMap_nil]
        | some c =>
          rw [hc] at htype
          rw [ahead_of_spent hc (hspent c hc).1 (hspent c hc).2, hq, continuation_cons_of_first htype, List.flatMap_nil]
      rw [heq, hahead]
      unfold FinishesWith
      rw [if_neg (by rw [List.length_nil]; omega)]
      exact fun b hb => nomatch hb

/-- **A read returns what is ahead**, if there is enough. -/
theorem finishesWith_readCall (ps : PacketStream) {len : Nat} (hlen : 1 ≤ len) :
    FinishesWith (ps.readCall len) [] ps.ahead len := by
  unfold readCall
  rcases ps.read_cases len with ⟨hc, heq⟩ | ⟨current, hc, heq⟩
  · rw [heq]
    exact finishesWith_waits _ ps rfl (by rw [hc]; rintro c ⟨⟩) len [] hlen
  · rw [heq]
    rw [ahead_of_some hc]
    refine finishesWith_copy ps current len [] (fun p' n b hrest htype hlast hn => ?_)
    have h := finishesWith_waits _ { ps with currentReadPacket := some p' } rfl
      (by rintro c ⟨⟩; exact ⟨hrest, by rw [htype, hlast]⟩) n b hn
    rwa [ahead_of_spent rfl hrest (by rw [htype, hlast])] at h

/-! ## Reads one after another -/

/-- What reads return, up to the first that fails. -/
def returned : List FinishedRead → List (Option (List UInt8))
  | [] => []
  | f :: fs =>
    match f.result with
    | .success buf => some buf :: returned fs
    | _ => [none]

/-- Consecutive slices of the given lengths, up to the first that there is not enough for. -/
def slices : List UInt8 → List Nat → List (Option (List UInt8))
  | _, [] => []
  | bytes, len :: lens => if len ≤ bytes.length then some (bytes.take len) :: slices (bytes.drop len) lens else [none]

theorem returned_readCalls : ∀ (lens : List Nat) (ps : PacketStream), (∀ len ∈ lens, 1 ≤ len) →
    returned (ps.readCalls lens) = slices ps.ahead lens
  | [], _, _ => rfl
  | len :: lens, ps, hlens => by
    have h := finishesWith_readCall ps (hlens len List.mem_cons_self)
    unfold FinishesWith at h
    rw [readCalls, returned, slices]
    by_cases hle : len ≤ ps.ahead.length
    · rw [if_pos hle] at h
      rw [if_pos hle, h.1]
      dsimp only
      rw [returned_readCalls lens _ (fun n hn => hlens n (List.mem_cons_of_mem _ hn)), h.2]
      rfl
    · rw [if_neg hle] at h
      rw [if_neg hle]
      cases hr : (ps.readCall len).result with
      | success b => exact absurd hr (h b)
      | failure => rfl
      | timedOut => rfl

/-- The packets a stream has for its reader. -/
def readPackets (ps : PacketStream) : List Packet := ps.currentReadPacket.toList ++ ps.readerQueue

/-- The packets of `f` are those of `ps`, the released ones included. -/
def Conserves (ps : PacketStream) (f : FinishedRead) : Prop :=
  ((f.released ++ f.stream.readPackets).map Packet.addr).Perm (ps.readPackets.map Packet.addr)

theorem conserves_resume : ∀ (queue : List Packet) (ps : PacketStream), ps.readerQueue = queue →
    ∀ outcome, ps.Conserves (ps.resume outcome)
  | queue, ps, hq, .success buf => by rw [resume_success]; exact List.Perm.refl _
  | queue, ps, hq, .failure => by rw [resume_failure]; exact List.Perm.refl _
  | [], ps, hq, .waits len buf => by rw [resume_waits_nil hq]; exact List.Perm.refl _
  | p :: queue, ps, hq, .waits len buf => by
    rcases resume_waits_cons hq len buf with ⟨-, heq⟩ | ⟨-, heq⟩
    · have ih := conserves_resume queue { ps with readerQueue := queue, currentReadPacket := some (copy p len buf).1 }
        rfl (copy p len buf).2
      unfold Conserves at ih ⊢
      have hps : ps.readPackets.map Packet.addr = ps.currentReadPacket.toList.map Packet.addr ++
          (p :: queue).map Packet.addr := by rw [readPackets, hq, List.map_append]
      rw [heq, hps, FinishedRead.after, List.append_assoc, List.map_append]
      refine List.Perm.append_left _ (ih.trans ?_)
      simp [readPackets]
    · unfold Conserves
      rw [heq, readPackets, readPackets, hq]
      have hperm : (p.addr :: (ps.currentReadPacket.toList.map Packet.addr ++ queue.map Packet.addr)).Perm
          (ps.currentReadPacket.toList.map Packet.addr ++ p.addr :: queue.map Packet.addr) := List.perm_middle.symm
      simpa using hperm

theorem conserves_readCall (ps : PacketStream) (len : Nat) : ps.Conserves (ps.readCall len) := by
  have h := conserves_resume _ (ps.read len).1 rfl (ps.read len).2
  unfold readCall
  unfold Conserves at h ⊢
  refine h.trans ?_
  rcases ps.read_cases len with ⟨-, heq⟩ | ⟨current, hc, heq⟩
  · rw [heq]
  · rw [heq, readPackets, readPackets, hc]
    simp

/-! ## Two reads as one -/

theorem copy_prepend (p : Packet) (len : Nat) (b buf : List UInt8) :
    copy p len (b ++ buf) = ((copy p len buf).1, (copy p len buf).2.prepend b) := by
  unfold copy
  dsimp only
  rw [List.append_assoc]
  split
  · rfl
  · split <;> rfl

theorem copy_add_of_success {p : Packet} {n : Nat} {buf b : List UInt8} (h : (copy p n buf).2 = .success b) (m : Nat) :
    copy p (n + m) buf = ((copy (copy p n buf).1 m []).1, (copy (copy p n buf).1 m []).2.prepend b) := by
  have hle : n ≤ p.rest.length := by
    by_contra hlt
    obtain ⟨hout, -⟩ := copy_of_lt (not_le.1 hlt) buf
    rw [h] at hout
    split at hout <;> cases hout
  have htake : (p.rest.take n).length = n := List.length_take_of_le hle
  have hcopy : copy p n buf = ({ p with currPos := p.currPos + n }, .success (buf ++ p.rest.take n)) := by
    simp [copy, Packet.readData, htake]
  rw [hcopy] at h ⊢
  cases h
  have hrest : ({ p with currPos := p.currPos + n } : Packet).rest = p.rest.drop n := by
    rw [Packet.rest, Packet.rest, List.drop_drop]
  have hlen : (p.rest.take (n + m)).length = n + ((p.rest.drop n).take m).length := by
    rw [List.take_add, List.length_append, htake]
  unfold copy Packet.readData
  dsimp only
  rw [hrest, hlen, List.take_add, Nat.add_assoc, List.nil_append, ← List.append_assoc, Nat.add_sub_add_left]
  split
  · rfl
  · split
    · rfl
    · rfl

theorem copy_add_of_waits {p : Packet} {n k : Nat} {buf b : List UInt8} (h : (copy p n buf).2 = .waits k b) (m : Nat) :
    copy p (n + m) buf = ((copy p n buf).1, .waits (k + m) b) := by
  have hlt : p.rest.length < n := by
    by_contra hle
    obtain ⟨hout, -⟩ := copy_of_le (not_lt.1 hle) buf
    rw [h] at hout
    cases hout
  have hlast := isLast_of_copy_waits h
  obtain ⟨hout, -⟩ := copy_of_lt hlt buf
  rw [h, hlast, if_neg (by simp)] at hout
  cases hout
  unfold copy Packet.readData
  dsimp only
  rw [List.take_of_length_le (show p.rest.length ≤ n by omega),
    List.take_of_length_le (show p.rest.length ≤ n + m by omega), if_neg (show ¬ n + m - p.rest.length = 0 by omega),
    if_neg (show ¬ n - p.rest.length = 0 by omega), hlast]
  simp only [Bool.false_eq_true, if_false]
  rw [Nat.sub_add_comm hlt.le]

theorem resume_prepend (b : List UInt8) : ∀ (queue : List Packet) (ps : PacketStream), ps.readerQueue = queue →
    ∀ outcome : ReadOutcome, ps.resume (outcome.prepend b) =
      { ps.resume outcome with result := (ps.resume outcome).result.prepend b }
  | _, ps, _, .success buf => by rw [ReadOutcome.prepend, resume_success, resume_success]; rfl
  | _, ps, _, .failure => by rw [ReadOutcome.prepend, resume_failure]; rfl
  | [], ps, hq, .waits len buf => by rw [ReadOutcome.prepend, resume_waits_nil hq, resume_waits_nil hq]; rfl
  | p :: queue, ps, hq, .waits len buf => by
    rw [ReadOutcome.prepend]
    rcases resume_waits_cons hq len buf with ⟨htype, heq⟩ | ⟨htype, heq⟩
    · rcases resume_waits_cons hq len (b ++ buf) with ⟨-, heq'⟩ | ⟨htype', -⟩
      · rw [heq, heq', copy_prepend]
        dsimp only
        rw [resume_prepend b queue _ rfl]
        rfl
      · rw [htype] at htype'
        cases hc : ps.currentReadPacket <;> rw [hc] at htype' <;> cases htype'
    · rcases resume_waits_cons hq len (b ++ buf) with ⟨htype', -⟩ | ⟨-, heq'⟩
      · rw [htype] at htype'
        cases hc : ps.currentReadPacket <;> rw [hc] at htype' <;> cases htype'
      · rw [heq, heq']
        rfl

/-- **A read goes on as the next one would**, from its current packet, if it does so from the queue. -/
theorem joined_copy (ps : PacketStream) (p : Packet) {n m : Nat} {buf b : List UInt8}
    (hwaits : ∀ (p' : Packet) (k : Nat) (b' : List UInt8),
      (resume { ps with currentReadPacket := some p' } (.waits k b')).result = .success b →
      resume { ps with currentReadPacket := some p' } (.waits (k + m) b') =
        (resume { ps with currentReadPacket := some p' } (.waits k b')).joined b
          ((resume { ps with currentReadPacket := some p' } (.waits k b')).stream.readCall m))
    (h : (resume { ps with currentReadPacket := some (copy p n buf).1 } (copy p n buf).2).result = .success b) :
    resume { ps with currentReadPacket := some (copy p (n + m) buf).1 } (copy p (n + m) buf).2 =
      (resume { ps with currentReadPacket := some (copy p n buf).1 } (copy p n buf).2).joined b
        ((resume { ps with currentReadPacket := some (copy p n buf).1 } (copy p n buf).2).stream.readCall m) := by
  cases hout : (copy p n buf).2 with
  | success b' =>
    rw [hout, resume_success] at h
    cases h
    rw [copy_add_of_success hout, resume_success]
    dsimp only
    rw [resume_prepend b _ _ rfl]
    rfl
  | failure =>
    rw [hout, resume_failure] at h
    cases h
  | waits k b' =>
    rw [hout] at h
    rw [copy_add_of_waits hout]
    exact hwaits _ k b' h

theorem joined_waits (m : Nat) {b : List UInt8} : ∀ (queue : List Packet) (ps : PacketStream), ps.readerQueue = queue →
    ∀ (n : Nat) (buf : List UInt8), (ps.resume (.waits n buf)).result = .success b →
    ps.resume (.waits (n + m) buf) =
      (ps.resume (.waits n buf)).joined b ((ps.resume (.waits n buf)).stream.readCall m)
  | [], ps, hq, n, buf, h => by
    rw [resume_waits_nil hq] at h
    cases h
  | p :: queue, ps, hq, n, buf, h => by
    rcases resume_waits_cons hq n buf with ⟨htype, heq⟩ | ⟨htype, heq⟩
    · rcases resume_waits_cons hq (n + m) buf with ⟨-, heq'⟩ | ⟨htype', -⟩
      · rw [heq] at h
        rw [heq, heq', joined_copy { ps with readerQueue := queue } p
          (fun p' k b' => joined_waits m queue _ rfl k b') h]
        simp [FinishedRead.joined, FinishedRead.after]
      · rw [htype] at htype'
        cases hc : ps.currentReadPacket <;> rw [hc] at htype' <;> cases htype'
    · rw [heq] at h
      cases h

/-- **Reading `n` bytes and then `m` is reading `n + m`.** -/
theorem readCall_add (ps : PacketStream) (n m : Nat) {b : List UInt8} (h : (ps.readCall n).result = .success b) :
    ps.readCall (n + m) = (ps.readCall n).joined b ((ps.readCall n).stream.readCall m) := by
  unfold readCall at h ⊢
  rcases ps.read_cases n with ⟨hc, heq⟩ | ⟨current, hc, heq⟩
  · have heq' : ps.read (n + m) = (ps, .waits (n + m) []) := by simp [read, hc]
    rw [heq] at h
    rw [heq, heq']
    exact joined_waits m _ ps rfl n [] h
  · have heq' : ps.read (n + m) = ({ ps with currentReadPacket := some (copy current (n + m) []).1 },
        (copy current (n + m) []).2) := by simp [read, hc]
    rw [heq] at h
    rw [heq, heq']
    exact joined_copy ps current (fun p' k b' => joined_waits m _ _ rfl k b') h

/-! ## The byte string of a queue -/

theorem conserves_readCalls : ∀ (lens : List Nat) (ps : PacketStream),
    (((ps.readCalls lens).flatMap FinishedRead.released ++ (ps.afterReads lens).readPackets).map Packet.addr).Perm
      (ps.readPackets.map Packet.addr)
  | [], ps => List.Perm.refl _
  | len :: lens, ps => by
    have h := conserves_readCall ps len
    unfold Conserves at h
    rw [List.map_append] at h
    rw [readCalls, afterReads, List.flatMap_cons, List.append_assoc, List.map_append]
    exact ((conserves_readCalls lens (ps.readCall len).stream).append_left _).trans h

theorem continuation_isPrefix : ∀ queue : List Packet, continuation queue <+: queue
  | [] => List.prefix_refl []
  | p :: queue => by
    cases hfirst : p.type.isFirst with
    | true => rw [continuation_cons_of_first hfirst]; exact List.nil_prefix
    | false =>
      rw [continuation_cons hfirst, List.prefix_cons_inj, afterPacket]
      split
      · exact List.nil_prefix
      · exact continuation_isPrefix queue

theorem legalPrefix_isPrefix (queue : List Packet) : legalPrefix queue <+: queue := by
  cases queue with
  | nil => exact List.prefix_refl []
  | cons p queue =>
    cases hfirst : p.type.isFirst with
    | false => rw [legalPrefix_cons_of_not hfirst]; exact List.nil_prefix
    | true =>
      rw [legalPrefix_cons hfirst, List.prefix_cons_inj, afterPacket]
      split
      · exact List.nil_prefix
      · exact continuation_isPrefix queue

/-- **The reads of a stream are reads from a byte string**: the bodies of the longest legal prefix of its queue.  Up to
the first that fails they return its consecutive slices, a read failing exactly when there is not enough left; each
packet is released once or still there; and two reads are one of both lengths. -/
theorem reads_slices (ps : PacketStream) (hnone : ps.currentReadPacket = none)
    (hfresh : ∀ p ∈ ps.readerQueue, p.currPos = 0) (lens : List Nat) (hlens : ∀ len ∈ lens, 1 ≤ len) :
    returned (ps.readCalls lens) = slices ((legalPrefix ps.readerQueue).flatMap Packet.body) lens ∧
    (((ps.readCalls lens).flatMap FinishedRead.released ++ (ps.afterReads lens).readPackets).map Packet.addr).Perm
      (ps.readPackets.map Packet.addr) ∧
    ∀ n m b, ((ps.afterReads lens).readCall n).result = .success b →
      (ps.afterReads lens).readCall (n + m) =
        ((ps.afterReads lens).readCall n).joined b (((ps.afterReads lens).readCall n).stream.readCall m) := by
  refine ⟨?_, conserves_readCalls lens ps, fun n m b h => readCall_add _ n m h⟩
  have hahead : ps.ahead = (legalPrefix ps.readerQueue).flatMap Packet.body := by
    unfold ahead
    rw [hnone]
    dsimp only
    rw [List.flatMap_def, List.flatMap_def]
    refine congrArg List.flatten (List.map_congr_left (fun p hp => ?_))
    rw [Packet.rest, hfresh p ((legalPrefix_isPrefix _).subset hp), List.drop_zero]
  rw [returned_readCalls lens ps hlens, hahead]

/-- A `START` of two bytes, an empty `MIDDLE`, an `END` of one byte and a stray `START`. -/
def fourPackets : PacketStream :=
  { create with readerQueue := [⟨0, .start, 5, [1, 2], 0⟩, ⟨1, .middle, 5, [], 0⟩, ⟨2, .end_, 5, [3], 0⟩,
                                ⟨3, .start, 5, [4], 0⟩] }

theorem reads_slices_fourPackets : returned (fourPackets.readCalls [1, 2, 1]) = [some [1], some [2, 3], none] :=
  (reads_slices fourPackets rfl (by decide) [1, 2, 1] (by decide)).1

/-! ## Disconnecting -/

/-- `mrpc_packet_stream_disconnect`, with the packet it acquired. -/
def disconnect (ps : PacketStream) (p : Packet) : PacketStream :=
  ps.pushPacket { p with type := .end_, requestId := ps.requestId }

/-- The reads of a stream, the first of them one that waits already for `pending.1` bytes, with `pending.2` read. -/
def callsFrom (ps : PacketStream) (pending : Option (Nat × List UInt8)) (lens : List Nat) : List FinishedRead :=
  match pending with
  | none => ps.readCalls lens
  | some (len, buf) => ps.resume (.waits len buf) :: (ps.resume (.waits len buf)).stream.readCalls lens

/-- After a disconnect with the packet `p` no read comes to wait on an empty queue. -/
def UnblocksReads (ps : PacketStream) (pending : Option (Nat × List UInt8)) (p : Packet) : Prop :=
  ∀ lens, ∀ f ∈ (ps.disconnect p).callsFrom pending lens, f.result ≠ .timedOut

/-- The first packet of a message was read, or is in the queue. -/
def HasFirst (ps : PacketStream) (queue : List Packet) : Prop :=
  ps.currentReadPacket ≠ none ∨ ∃ q ∈ queue, q.type.isFirst = true

/-- Reads never come to wait: the current packet is the last of its message, or an `END` is still to come and will be
taken for one. -/
def Unblocked (ps : PacketStream) : Prop :=
  (∃ c, ps.currentReadPacket = some c ∧ c.type.isLast = true) ∨
  ∃ queue e, ps.readerQueue = queue ++ [e] ∧ e.type = .end_ ∧ ps.HasFirst queue

/-- A read that did not come to wait, and after which none will. -/
def Served (f : FinishedRead) : Prop := f.result ≠ .timedOut ∧ f.stream.Unblocked

theorem served_copy (ps : PacketStream) {e : Packet} (he : e.type = .end_) (p : Packet) (len : Nat) (buf : List UInt8)
    (h : p.type.isLast = true ∨ ∃ queue, ps.readerQueue = queue ++ [e] ∧
      ∀ p' n b, Served (resume { ps with currentReadPacket := some p' } (.waits n b))) :
    Served (resume { ps with currentReadPacket := some (copy p len buf).1 } (copy p len buf).2) := by
  have hnext : ({ ps with currentReadPacket := some (copy p len buf).1 } : PacketStream).Unblocked := by
    rcases h with hlast | ⟨queue, hq, -⟩
    · exact Or.inl ⟨_, rfl, by rw [type_copy, hlast]⟩
    · exact Or.inr ⟨queue, e, hq, he, Or.inl (Option.some_ne_none _)⟩
  cases hout : (copy p len buf).2 with
  | success b => rw [resume_success]; exact ⟨nofun, hnext⟩
  | failure => rw [resume_failure]; exact ⟨nofun, hnext⟩
  | waits n b =>
    have hlast := isLast_of_copy_waits hout
    obtain ⟨queue, -, hwaits⟩ := h.resolve_left (by rw [hlast]; decide)
    exact hwaits _ n b

/-- **A read that waits is served from the queue.** -/
theorem served_waits {e : Packet} (he : e.type = .end_) : ∀ (queue : List Packet) (ps : PacketStream),
    ps.readerQueue = queue ++ [e] → ps.HasFirst queue → ∀ (len : Nat) (buf : List UInt8),
    Served (ps.resume (.waits len buf))
  | [], ps, hq, hfirst, len, buf => by
    have hsome : ps.currentReadPacket ≠ none := hfirst.resolve_right (by simp)
    rcases resume_waits_cons hq len buf with ⟨-, heq⟩ | ⟨htype, -⟩
    · -- the `END` becomes the current packet
      rw [heq]
      exact served_copy { ps with readerQueue := [] } he e len buf (Or.inl (by rw [he]; rfl))
    · rw [he] at htype
      cases hc : ps.currentReadPacket with
      | none => exact absurd hc hsome
      | some c => rw [hc] at htype; cases htype
  | p :: queue, ps, hq, hfirst, len, buf => by
    rcases resume_waits_cons hq len buf with ⟨-, heq⟩ | ⟨htype, heq⟩
    · rw [heq]
      exact served_copy { ps with readerQueue := queue ++ [e] } he p len buf (Or.inr ⟨queue, rfl, fun p' n b =>
        served_waits he queue _ rfl (Or.inl (Option.some_ne_none p')) n b⟩)
    · rw [heq]
      refine ⟨nofun, Or.inr ⟨queue, e, rfl, he, ?_⟩⟩
      rcases hfirst with hsome | ⟨q, hmem, hqf⟩
      · exact Or.inl hsome
      · -- a packet refused for want of a first one is none
        rcases List.mem_cons.1 hmem with rfl | hmem
        · rw [hqf] at htype
          exact Or.inl (Option.isSome_iff_ne_none.1 htype.symm)
        · exact Or.inr ⟨q, hmem, hqf⟩

theorem Unblocked.readCall {ps : PacketStream} (h : ps.Unblocked) (len : Nat) : Served (ps.readCall len) := by
  unfold PacketStream.readCall
  rcases ps.read_cases len with ⟨hc, heq⟩ | ⟨current, hc, heq⟩
  · rw [heq]
    rcases h with ⟨c, hc', -⟩ | ⟨queue, e, hq, he, hfirst⟩
    · rw [hc] at hc'; cases hc'
    · exact served_waits he queue ps hq hfirst len []
  · rw [heq]
    rcases h with ⟨c, hc', hlast⟩ | ⟨queue, e, hq, he, -⟩
    · rw [hc] at hc'
      cases hc'
      exact served_copy ps (e := { current with type := .end_ }) rfl current len [] (Or.inl hlast)
    · exact served_copy ps he current len [] (Or.inr ⟨queue, hq, fun p' n b =>
        served_waits he queue { ps with currentReadPacket := some p' } hq (Or.inl (Option.some_ne_none p')) n b⟩)

theorem Unblocked.readCalls : ∀ (lens : List Nat) {ps : PacketStream}, ps.Unblocked →
    ∀ f ∈ ps.readCalls lens, f.result ≠ .timedOut
  | [], ps, _, f, hf => by cases hf
  | len :: lens, ps, h, f, hf => by
    obtain ⟨hres, hnext⟩ := h.readCall len
    rcases List.mem_cons.1 hf with rfl | hf
    · exact hres
    · exact Unblocked.readCalls lens hnext f hf

/-- **Without a first packet every read takes one packet and fails, and the last one waits.** -/
theorem timedOut_of_noFirst : ∀ (queue : List Packet) (ps : PacketStream), ps.readerQueue = queue →
    ps.currentReadPacket = none → (∀ q ∈ queue, q.type.isFirst = false) →
    ∃ f ∈ ps.readCalls (List.replicate (queue.length + 1) 1), f.result = .timedOut
  | [], ps, hq, hc, _ => by
    refine ⟨ps.readCall 1, List.mem_cons_self, ?_⟩
    rw [PacketStream.readCall, read, hc]
    dsimp only
    rw [resume_waits_nil hq]
  | p :: queue, ps, hq, hc, hnot => by
    have hcall : ps.readCall 1 = ⟨{ ps with readerQueue := queue }, .failure, [p]⟩ := by
      rw [PacketStream.readCall, read, hc]
      dsimp only
      rcases resume_waits_cons hq 1 [] with ⟨htype, -⟩ | ⟨-, heq⟩
      · rw [hc, hnot p List.mem_cons_self] at htype
        cases htype
      · rw [hc] at heq
        exact heq
    obtain ⟨f, hf, hres⟩ := timedOut_of_noFirst queue { ps with readerQueue := queue } rfl hc
      (fun q hq => hnot q (List.mem_cons_of_mem p hq))
    refine ⟨f, ?_, hres⟩
    rw [List.length_cons, List.replicate_succ, PacketStream.readCalls, hcall]
    exact List.mem_cons_of_mem _ hf

/-- **A disconnect unblocks all later reads exactly when the stream had or will have the first packet of a message**:
else its `END` is refused like the packets before it, and the next read waits. -/
theorem unblocksReads_iff (ps : PacketStream) (pending : Option (Nat × List UInt8)) (p : Packet) :
    ps.UnblocksReads pending p ↔ ps.currentReadPacket ≠ none ∨ ∃ q ∈ ps.readerQueue, q.type.isFirst = true := by
  constructor
  · intro h
    by_contra hnot
    obtain ⟨hc, hq⟩ := not_or.1 hnot
    rw [not_not] at hc
    have hnone : ∀ q ∈ (ps.disconnect p).readerQueue, q.type.isFirst = false := by
      intro q hmem
      rcases List.mem_append.1 hmem with hmem | hmem
      · exact Bool.eq_false_iff.2 (fun hf => hq ⟨q, hmem, hf⟩)
      · rw [List.mem_singleton.1 hmem]
        rfl
    cases pending with
    | none =>
      obtain ⟨f, hf, hres⟩ := timedOut_of_noFirst _ (ps.disconnect p) rfl hc hnone
      exact h (List.replicate ((ps.disconnect p).readerQueue.length + 1) 1) f hf hres
    | some pend =>
      obtain ⟨len, buf⟩ := pend
      obtain ⟨q, queue, hqueue⟩ : ∃ q queue, (ps.disconnect p).readerQueue = q :: queue :=
        List.exists_cons_of_ne_nil (List.append_ne_nil_of_right_ne_nil _ (List.cons_ne_nil _ _))
      have hres : (ps.disconnect p).resume (.waits len buf) =
          ⟨{ ps.disconnect p with readerQueue := queue }, .failure, [q]⟩ := by
        rcases resume_waits_cons hqueue len buf with ⟨htype, -⟩ | ⟨-, heq⟩
        · have hq' := hnone q (by rw [hqueue]; exact List.mem_cons_self)
          rw [hq', show (ps.disconnect p).currentReadPacket = none from hc] at htype
          cases htype
        · exact heq
      obtain ⟨f, hf, hout⟩ := timedOut_of_noFirst queue { ps.disconnect p with readerQueue := queue } rfl hc
        (fun q' hq' => hnone q' (by rw [hqueue]; exact List.mem_cons_of_mem q hq'))
      refine h (List.replicate (queue.length + 1) 1) f ?_ hout
      rw [callsFrom, hres]
      exact List.mem_cons_of_mem _ hf
  · intro hfirst lens f hf
    obtain ⟨e, he, hqueue⟩ : ∃ e : Packet, e.type = .end_ ∧ (ps.disconnect p).readerQueue = ps.readerQueue ++ [e] :=
      ⟨_, rfl, rfl⟩
    cases pending with
    | none =>
      have hready : (ps.disconnect p).Unblocked := Or.inr ⟨_, e, hqueue, he, hfirst⟩
      exact hready.readCalls lens f hf
    | some pend =>
      obtain ⟨hres, hnext⟩ := served_waits he _ (ps.disconnect p) hqueue hfirst pend.1 pend.2
      rcases List.mem_cons.1 hf with rfl | hf
      · exact hres
      · exact hnext.readCalls lens f hf

/-- A stream that was just initialised and disconnected: the first read refuses the `END`, the second one waits. -/
theorem not_unblocksReads_fresh : ¬ (create.initialise 5).UnblocksReads none (Packet.create 0) := by
  intro h
  obtain ⟨f, hf, hres⟩ := timedOut_of_noFirst _ ((create.initialise 5).disconnect (Packet.create 0)) rfl rfl (by decide)
  exact h [1, 1] f hf hres

end PacketStream
end Mrpc
