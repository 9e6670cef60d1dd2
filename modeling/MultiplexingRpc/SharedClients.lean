import MultiplexingRpc.DistributedClient
/-!
# SharedClients — clients in use while they are removed (`mrpc_distributed_client_wrapper.c`)

Request fibers acquire clients from the ring and release them later, while the main fiber handles the controller's
messages.  Stopping a wrapper blocks twice: in `mrpc_client_stop`, and in the wait for the wrapper's event, which is set
when the last user releases the client.  Fibers switch at these points only, so the system is a step function over what
runs between them; `STOP` does what `REMOVE_ALL_CLIENTS` does, as the last message.

The client of a wrapper is its own for ever, so the wrapper's number stands for both and is the cookie.
-/
namespace Mrpc

open KeyedList ConsistentHash

/-- `mrpc_distributed_client_wrapper_release_client`. -/
def ClientWrapper.releaseClient (w : ClientWrapper) : Except Fault ClientWrapper := do
  ffAssert (w.streamConnector ≠ none)
  ffAssert (w.refCnt > 0)
  return { w with refCnt := w.refCnt - 1, stopEvent := if w.refCnt - 1 = 0 then true else w.stopEvent }

/-- What the main fiber does when the wrapper it stops has stopped. -/
inductive AfterStop where
  | rejected
  | removed
  | removedAll (rest : List Nat)
  deriving DecidableEq, Repr

/-- Where the main fiber blocks. -/
inductive MainFiber where
  | receiving
  | stoppingClient (w : Nat) (after : AfterStop)
  | waitingEvent (w : Nat) (after : AfterStop)
  deriving DecidableEq, Repr

/-- The distributed client, its main fiber, and the cookies that request fibers hold. -/
structure SharedClients where
  dc : DistributedClient
  main : MainFiber
  cookies : List Nat

/-- What can happen between two switches of fibers: the main fiber gets a message, `mrpc_client_stop` returns,
`ff_event_wait` returns, a request fiber tries to acquire a client or releases the one of a cookie. -/
inductive SharedAct where
  | message (message : Message)
  | clientStopped
  | eventWaited
  | acquire (requestHashValue : UInt32)
  | release (cookie : Nat)
  deriving DecidableEq, Repr

/-- The wrappers that are to be stopped behind the current one. -/
def AfterStop.rest : AfterStop → List Nat
  | rejected => []
  | removed => []
  | removedAll rest => rest

/-- How many of the wrappers being stopped `current_clients_cnt` counts. -/
def AfterStop.counted : AfterStop → Nat
  | rejected => 0
  | removed => 1
  | removedAll rest => rest.length + 1

/-- The wrappers being stopped, the current one first. -/
def MainFiber.leaving : MainFiber → List Nat
  | receiving => []
  | stoppingClient w after => w :: after.rest
  | waitingEvent w after => w :: after.rest

def MainFiber.counted : MainFiber → Nat
  | receiving => 0
  | stoppingClient _ after => after.counted
  | waitingEvent _ after => after.counted

/-- All clients are being removed. -/
def MainFiber.clears : MainFiber → Bool
  | stoppingClient _ (.removedAll _) => true
  | waitingEvent _ (.removedAll _) => true
  | _ => false

namespace SharedClients

open DistributedClient

variable (ffHashUint32 : UInt32 → List UInt32 → UInt32)

/-- `mrpc_distributed_client_wrapper_stop` up to where it blocks. -/
def beginStop (dc : DistributedClient) (w : Nat) (after : AfterStop) : Except Fault (DistributedClient × MainFiber) := do
  ffAssert ((dc.wrappers w).streamConnector ≠ none)
  return (dc, .stoppingClient w after)

/-- The wrappers that `ff_dictionary_remove_all_entries` has still to remove. -/
def removeNext (dc : DistributedClient) : List Nat → Except Fault (DistributedClient × MainFiber)
  | [] => do
    ffAssert (dc.currentClientsCnt = 0)
    return (dc, .receiving)
  | w :: ws => do
    ffAssert (dc.currentClientsCnt > 0)
    ffAssert (dc.currentClientsCnt ≤ dc.maxClientsCnt)
    beginStop dc w (.removedAll ws)

/-- `add_client` up to where it blocks. -/
def addClient (dc : DistributedClient) (streamConnector : Nat) (key : UInt64) :
    Except Fault (DistributedClient × MainFiber) := do
  ffAssert (dc.currentClientsCnt ≤ dc.maxClientsCnt)
  if dc.currentClientsCnt = dc.maxClientsCnt then
    return ({ dc with deletedConnectors := streamConnector :: dc.deletedConnectors }, .receiving)
  let (w, dc) ← dc.acquireClientWrapper
  let dc ← dc.startWrapper w streamConnector
  if dc.clientsMap.any (fun c => c.1 == key) then
    beginStop dc w .rejected
  else
    let consistentHash ← dc.consistentHash.addEntry ffHashUint32 (getU64Hash ffHashUint32 key) w
    return ({ dc with clientsMap := (key, w) :: dc.clientsMap, consistentHash := consistentHash,
                      currentClientsCnt := dc.currentClientsCnt + 1 }, .receiving)

/-- `remove_client` up to where it blocks. -/
def removeClient (dc : DistributedClient) (key : UInt64) : Except Fault (DistributedClient × MainFiber) :=
  match dc.clientsMap.find? (fun c => c.1 == key) with
  | none => .ok (dc, .receiving)
  | some (_, w) => do
    let dc := { dc with clientsMap := dc.clientsMap.filter (fun c => c.1 != key) }
    ffAssert (dc.currentClientsCnt > 0)
    ffAssert (dc.currentClientsCnt ≤ dc.maxClientsCnt)
    let consistentHash ← dc.consistentHash.removeEntry ffHashUint32 (getU64Hash ffHashUint32 key)
    beginStop { dc with consistentHash := consistentHash } w .removed

/-- `remove_all_clients` up to where it blocks. -/
def removeAllClients (dc : DistributedClient) : Except Fault (DistributedClient × MainFiber) := do
  let consistentHash ← dc.consistentHash.removeAllEntries
  removeNext { dc with consistentHash := consistentHash, clientsMap := [] } (dc.clientsMap.map Prod.snd)

/-- One turn of `distributed_client_main_func` up to where it blocks. -/
def receive (dc : DistributedClient) : Message → Except Fault (DistributedClient × MainFiber)
  | .addClient streamConnector key => addClient ffHashUint32 dc streamConnector key
  | .removeClient key => removeClient ffHashUint32 dc key
  | .removeAllClients => removeAllClients dc

/-- The rest of `mrpc_distributed_client_wrapper_stop` behind its wait, and what the main fiber does next. -/
def finishStop (dc : DistributedClient) (w : Nat) (after : AfterStop) :
    Except Fault (DistributedClient × MainFiber) := do
  let dc ← dc.stopWrapper w
  let dc := dc.releaseClientWrapper w
  match after with
  | .rejected => return (dc, .receiving)
  | .removed => return ({ dc with currentClientsCnt := dc.currentClientsCnt - 1 }, .receiving)
  | .removedAll rest => removeNext { dc with currentClientsCnt := dc.currentClientsCnt - 1 } rest

/-- A step; `blocked` stands for one that is not possible in the state. -/
def step (s : SharedClients) : SharedAct → Except Fault SharedClients
  | .message m =>
    match s.main with
    | .receiving => do
      let (dc, main) ← receive ffHashUint32 s.dc m
      return { s with dc := dc, main := main }
    | _ => .error .blocked
  | .clientStopped =>
    match s.main with
    | .stoppingClient w after => .ok { s with main := .waitingEvent w after }
    | _ => .error .blocked
  | .eventWaited =>
    match s.main with
    | .waitingEvent w after => do
      let (dc, main) ← finishStop s.dc w after
      return { s with dc := dc, main := main }
    | _ => .error .blocked
  | .acquire requestHashValue => do
    let (cookie, dc) ← s.dc.tryAcquireClient ffHashUint32 requestHashValue
    return { s with dc := dc, cookies := cookie.toList ++ s.cookies }
  | .release cookie =>
    if cookie ∈ s.cookies then do
      let cw ← (s.dc.wrappers cookie).releaseClient
      return { s with dc := { s.dc with wrappers := Function.update s.dc.wrappers cookie cw },
                      cookies := s.cookies.erase cookie }
    else .error .blocked

/-- The distributed client is started: no client is registered. -/
def start (dc : DistributedClient) : SharedClients := ⟨dc, .receiving, []⟩

/-! ## The users of a wrapper -/

namespace Holding

variable {ns : List Nat} {pool : Pool Nat} {wrappers : Nat → ClientWrapper} {cookies : List Nat}

/-- Another user. -/
theorem acquire {w : Nat} (h : Holding ns pool wrappers cookies) (hw : w ∈ ns) :
    ∃ cw, (wrappers w).acquireClient = .ok cw ∧
      Holding ns pool (Function.update wrappers w cw) (w :: cookies) := by
  obtain ⟨c, hc⟩ := h.started w hw
  refine ⟨⟨some c, false, cookies.count w + 1⟩, ?_, h.nodup, h.wellFormed, h.inUse, ?_, ?_⟩
  · rw [hc]
    unfold ClientWrapper.acquireClient
    rw [ffAssert_of (by simp), ok_bind]
    by_cases hzero : cookies.count w = 0 <;> simp [hzero] <;> rfl
  · intro n hn
    by_cases hnw : n = w
    · subst hnw
      refine ⟨c, ?_⟩
      rw [Function.update_self, List.count_cons_self]
      rfl
    · rw [Function.update_of_ne hnw, List.count_cons_of_ne (fun h => hnw h.symm)]
      exact h.started n hn
  · intro n hn
    have hnw : n ≠ w := by
      rintro rfl
      exact hn hw
    rw [Function.update_of_ne hnw, List.count_cons_of_ne (fun h => hnw h.symm)]
    exact h.idle n hn

theorem mem_of_cookie {w : Nat} (h : Holding ns pool wrappers cookies) (hw : w ∈ cookies) : w ∈ ns := by
  by_contra hn
  exact List.count_eq_zero.1 (h.idle w hn).2.2 hw

/-- A user less. -/
theorem release {w : Nat} (h : Holding ns pool wrappers cookies) (hw : w ∈ cookies) :
    ∃ cw, (wrappers w).releaseClient = .ok cw ∧
      Holding ns pool (Function.update wrappers w cw) (cookies.erase w) := by
  have hmem := h.mem_of_cookie hw
  have hpos := List.count_pos_iff.2 hw
  obtain ⟨c, hc⟩ := h.started w hmem
  refine ⟨⟨some c, decide (cookies.count w - 1 = 0), cookies.count w - 1⟩, ?_, h.nodup, h.wellFormed, h.inUse, ?_, ?_⟩
  · rw [hc]
    unfold ClientWrapper.releaseClient
    rw [ffAssert_of (by simp), ok_bind, ffAssert_of hpos, ok_bind]
    have hne : cookies.count w ≠ 0 := by omega
    by_cases hone : cookies.count w - 1 = 0 <;> simp [hone, hne] <;> rfl
  · intro n hn
    by_cases hnw : n = w
    · subst hnw
      refine ⟨c, ?_⟩
      rw [Function.update_self, List.count_erase_self]
    · rw [Function.update_of_ne hnw, List.count_erase_of_ne hnw]
      exact h.started n hn
  · intro n hn
    have hnw : n ≠ w := by
      rintro rfl
      exact hn hmem
    rw [Function.update_of_ne hnw, List.count_erase_of_ne hnw]
    exact h.idle n hn

end Holding

/-! ## The ring -/

/-- The ring points of different registered clients do not coincide. -/
def Separate (clientsMap : List (UInt64 × Nat)) : Prop :=
  ∀ c ∈ clientsMap, ∀ c' ∈ clientsMap, c.1 ≠ c'.1 →
    List.Disjoint (ringPoints ffHashUint32 c.1) (ringPoints ffHashUint32 c'.1)

/-- The ring carries the registered clients at their keys' points. -/
structure Ringed (clientsMap : List (UInt64 × Nat)) (ch : ConsistentHash Nat) : Prop where
  wellFormed : ch.WellFormed
  factor : ch.uniformFactor = DistributedClient.uniformFactor
  keys : (clientsMap.map Prod.fst).Nodup
  stacked : ∀ p : UInt32, atKey Entry.point p.toNat ch.entries =
    clientsMap.flatMap (fun c => List.replicate ((ringPoints ffHashUint32 c.1).count p) ⟨p, c.2⟩)

namespace Ringed

variable {ffHashUint32} {clientsMap : List (UInt64 × Nat)} {ch : ConsistentHash Nat}

theorem addEntry (h : Ringed ffHashUint32 clientsMap ch) {key : UInt64} (hkey : key ∉ clientsMap.map Prod.fst) (w : Nat) :
    ∃ ch', ch.addEntry ffHashUint32 (getU64Hash ffHashUint32 key) w = .ok ch' ∧
      Ringed ffHashUint32 ((key, w) :: clientsMap) ch' := by
  obtain ⟨ch', hadd, hwf, hfactor, hstack⟩ := addEntry_ring ffHashUint32 h.wellFormed h.factor key w
  refine ⟨ch', hadd, hwf, hfactor, List.nodup_cons.2 ⟨hkey, h.keys⟩, fun p => ?_⟩
  rw [hstack p, h.stacked p, List.flatMap_cons]

theorem removeEntry {newer older : List (UInt64 × Nat)} {key : UInt64} {w : Nat}
    (h : Ringed ffHashUint32 (newer ++ (key, w) :: older) ch)
    (hsep : Separate ffHashUint32 (newer ++ (key, w) :: older)) :
    ∃ ch', ch.removeEntry ffHashUint32 (getU64Hash ffHashUint32 key) = .ok ch' ∧
      Ringed ffHashUint32 (newer ++ older) ch' := by
  have hcount : ∀ p : UInt32, (ringPoints ffHashUint32 key).count p ≤ (atKey Entry.point p.toNat ch.entries).length := by
    intro p
    rw [h.stacked p, List.flatMap_append, List.flatMap_cons, List.length_append, List.length_append,
      List.length_replicate]
    dsimp only
    omega
  obtain ⟨ch', hremove, hwf, hfactor, hdrop⟩ := removeEntry_ring ffHashUint32 h.wellFormed h.factor key hcount
  have hkeys := h.keys
  rw [List.map_append, List.map_cons] at hkeys
  refine ⟨ch', hremove, hwf, hfactor, ?_, ?_⟩
  · rw [List.map_append]
    exact hkeys.sublist ((List.sublist_cons_self _ _).append_left _)
  · intro p
    rw [hdrop p, h.stacked p]
    apply drop_stack
    intro c hc
    refine hsep (key, w) (by simp) c (List.mem_append_left _ hc) ?_
    intro heq
    rw [List.nodup_append] at hkeys
    exact hkeys.2.2 c.1 (List.mem_map.2 ⟨c, hc, rfl⟩) key List.mem_cons_self heq.symm

theorem removeAllEntries (h : Ringed ffHashUint32 clientsMap ch) :
    ∃ ch', ch.removeAllEntries = .ok ch' ∧ Ringed ffHashUint32 [] ch' := by
  obtain ⟨ch', hch', hwf, hfactor, -, hentries⟩ := h.wellFormed.removeAllEntries
  refine ⟨ch', hch', hwf, hfactor.trans h.factor, List.nodup_nil, ?_⟩
  intro p
  rw [hentries]
  rfl

/-- **A lookup that returns returns a registered client.** -/
theorem getEntry (h : Ringed ffHashUint32 clientsMap ch) (hpos : ch.entriesCnt > 0) {requestHashValue : UInt32} {w : Nat}
    (hget : ch.getEntry ffHashUint32 requestHashValue = .ok w) : w ∈ clientsMap.map Prod.snd := by
  obtain ⟨e, he, rfl⟩ := h.wellFormed.mem_of_getEntry ffHashUint32 hpos hget
  have hat : e ∈ atKey Entry.point e.key.toNat ch.entries := List.mem_filter.2 ⟨he, by simp [Entry.point]⟩
  rw [h.stacked e.key] at hat
  obtain ⟨c, hc, hce⟩ := List.mem_flatMap.1 hat
  refine List.mem_map.2 ⟨c, hc, ?_⟩
  rw [(List.mem_replicate.1 hce).2]

end Ringed

/-! ## The invariant -/

/-- The wrappers in use: of registered clients, and of those being stopped. -/
def inUse (s : SharedClients) : List Nat := s.dc.clientsMap.map Prod.snd ++ s.main.leaving

structure Inv (s : SharedClients) : Prop where
  holding : Holding s.inUse s.dc.clientWrappersPool s.dc.wrappers s.cookies
  capacity : s.dc.clientWrappersPool.capacity = s.dc.maxClientsCnt
  ringed : Ringed ffHashUint32 s.dc.clientsMap s.dc.consistentHash
  count : s.dc.currentClientsCnt = s.dc.clientsMap.length + s.main.counted
  bound : s.dc.currentClientsCnt ≤ s.dc.maxClientsCnt
  cleared : s.main.clears = true → s.dc.clientsMap = []

theorem beginStop_of_holding {ns : List Nat} (dc : DistributedClient) {cookies : List Nat} {w : Nat}
    (h : Holding ns dc.clientWrappersPool dc.wrappers cookies) (hw : w ∈ ns) (after : AfterStop) :
    beginStop dc w after = .ok (dc, .stoppingClient w after) := by
  obtain ⟨c, hc⟩ := h.started w hw
  unfold beginStop
  rw [hc, ffAssert_of (by simp), ok_bind]
  rfl

/-- The rest of the wrappers, one after the other. -/
theorem removeNext_of_holding {ws : List Nat} (dc : DistributedClient) {cookies : List Nat}
    (h : Holding ws dc.clientWrappersPool dc.wrappers cookies) (hcount : dc.currentClientsCnt = ws.length)
    (hbound : dc.currentClientsCnt ≤ dc.maxClientsCnt) :
    ∃ main, removeNext dc ws = .ok (dc, main) ∧ main.leaving = ws ∧ main.counted = ws.length := by
  cases ws with
  | nil =>
    refine ⟨.receiving, ?_, rfl, rfl⟩
    rw [removeNext, ffAssert_of (show dc.currentClientsCnt = 0 from hcount), ok_bind]
    rfl
  | cons w ws =>
    rw [List.length_cons] at hcount
    refine ⟨.stoppingClient w (.removedAll ws), ?_, rfl, rfl⟩
    have hpos : dc.currentClientsCnt > 0 := by omega
    rw [removeNext, ffAssert_of hpos, ok_bind, ffAssert_of hbound, ok_bind]
    exact beginStop_of_holding dc h List.mem_cons_self _

section Receive

variable {ffHashUint32} {s : SharedClients}

theorem Inv.addClient (h : s.Inv ffHashUint32) (hmain : s.main = .receiving) (streamConnector : Nat) (key : UInt64) :
    ∃ dc main, SharedClients.addClient ffHashUint32 s.dc streamConnector key = .ok (dc, main) ∧
      Inv ffHashUint32 ⟨dc, main, s.cookies⟩ := by
  obtain ⟨dc, main, cookies⟩ := s
  cases hmain
  have hheld : Holding (dc.clientsMap.map Prod.snd) dc.clientWrappersPool dc.wrappers cookies :=
    h.holding.perm (by rw [SharedClients.inUse, MainFiber.leaving, List.append_nil])
  have hcount : dc.currentClientsCnt = dc.clientsMap.length := h.count
  have hbound : dc.currentClientsCnt ≤ dc.maxClientsCnt := h.bound
  unfold SharedClients.addClient
  rw [ffAssert_of hbound, ok_bind]
  by_cases hfull : dc.currentClientsCnt = dc.maxClientsCnt
  · rw [if_pos hfull]
    exact ⟨_, _, rfl, h.holding, h.capacity, h.ringed, h.count, h.bound, h.cleared⟩
  rw [if_neg hfull]
  have hlen : (dc.clientsMap.map Prod.snd).length < dc.clientWrappersPool.capacity := by
    have hcap : dc.clientWrappersPool.capacity = dc.maxClientsCnt := h.capacity
    rw [List.length_map, hcap]
    omega
  obtain ⟨w, pool, hacquire, hcap, hnew, hheld'⟩ := dc.acquireClientWrapper_of_holding hheld hlen
  obtain ⟨hstopped, hunused, -⟩ := hheld.idle w hnew
  have hstart := hheld' streamConnector
  rw [hacquire, ok_bind]
  dsimp only
  rw [startWrapper_eq { dc with clientWrappersPool := pool } hstopped hunused, ok_bind]
  dsimp only
  by_cases hdup : dc.clientsMap.any (fun c => c.1 == key) = true
  · -- the key is registered: the new wrapper goes again
    rw [if_pos hdup, beginStop_of_holding _ hstart List.mem_cons_self]
    refine ⟨_, _, rfl, ?_, hcap.trans h.capacity, h.ringed, h.count, h.bound, fun hclears => by cases hclears⟩
    exact hstart.perm (List.perm_append_singleton w _).symm
  · rw [if_neg hdup]
    rw [any_key_iff] at hdup
    obtain ⟨ch, hadd, hringed⟩ := h.ringed.addEntry hdup w
    rw [hadd, ok_bind]
    refine ⟨_, _, rfl, ?_, hcap.trans h.capacity, hringed, ?_, ?_, fun hclears => by cases hclears⟩
    · exact hstart.perm (by rw [SharedClients.inUse, MainFiber.leaving, List.append_nil]; rfl)
    · rw [List.length_cons, MainFiber.counted]
      dsimp only
      omega
    · dsimp only
      omega

theorem Inv.removeClient (h : s.Inv ffHashUint32) (hsep : Separate ffHashUint32 s.dc.clientsMap)
    (hmain : s.main = .receiving) (key : UInt64) :
    ∃ dc main, SharedClients.removeClient ffHashUint32 s.dc key = .ok (dc, main) ∧
      Inv ffHashUint32 ⟨dc, main, s.cookies⟩ := by
  obtain ⟨dc, main, cookies⟩ := s
  cases hmain
  unfold SharedClients.removeClient
  dsimp only
  cases hfind : dc.clientsMap.find? (fun c => c.1 == key) with
  | none => exact ⟨_, _, rfl, h⟩
  | some c =>
    obtain ⟨newer, older, hsplit, hfilter⟩ := clientsMap_split h.ringed.keys hfind
    obtain ⟨k, w⟩ := c
    dsimp only at hsplit hfilter ⊢
    have hcount : dc.currentClientsCnt = dc.clientsMap.length := h.count
    have hbound : dc.currentClientsCnt ≤ dc.maxClientsCnt := h.bound
    rw [hsplit, List.length_append, List.length_cons] at hcount
    have hpos : dc.currentClientsCnt > 0 := by omega
    have hringed : Ringed ffHashUint32 dc.clientsMap dc.consistentHash := h.ringed
    rw [hsplit] at hringed
    obtain ⟨ch, hremove, hringed⟩ := hringed.removeEntry (hsplit ▸ hsep)
    have hheld : Holding ((newer ++ older).map Prod.snd ++ [w]) dc.clientWrappersPool dc.wrappers cookies := by
      apply h.holding.perm
      rw [SharedClients.inUse, MainFiber.leaving, List.append_nil, hsplit, List.map_append, List.map_append,
        List.map_cons]
      exact List.perm_middle.trans (List.perm_append_singleton w _).symm
    rw [ffAssert_of hpos, ok_bind, ffAssert_of hbound, ok_bind, hremove, ok_bind, hfilter]
    refine ⟨_, _, beginStop_of_holding { dc with clientsMap := newer ++ older, consistentHash := ch } hheld (by simp) _,
      hheld, h.capacity, hringed, ?_, h.bound, fun hclears => nomatch hclears⟩
    rw [List.length_append, MainFiber.counted, AfterStop.counted]
    dsimp only
    omega

theorem Inv.removeAllClients (h : s.Inv ffHashUint32) (hmain : s.main = .receiving) :
    ∃ dc main, SharedClients.removeAllClients s.dc = .ok (dc, main) ∧ Inv ffHashUint32 ⟨dc, main, s.cookies⟩ := by
  obtain ⟨dc, main, cookies⟩ := s
  cases hmain
  obtain ⟨ch, hremove, hringed⟩ := h.ringed.removeAllEntries
  have hheld : Holding (dc.clientsMap.map Prod.snd) dc.clientWrappersPool dc.wrappers cookies :=
    h.holding.perm (by rw [SharedClients.inUse, MainFiber.leaving, List.append_nil])
  have hcount : dc.currentClientsCnt = (dc.clientsMap.map Prod.snd).length := by
    rw [List.length_map]
    exact h.count
  obtain ⟨main, hnext, hleaving, hcounted⟩ :=
    removeNext_of_holding { dc with consistentHash := ch, clientsMap := [] } hheld hcount h.bound
  unfold SharedClients.removeAllClients
  rw [hremove, ok_bind]
  refine ⟨_, main, hnext, ?_, h.capacity, hringed, ?_, h.bound, fun _ => rfl⟩
  · rw [SharedClients.inUse, List.map_nil, List.nil_append, hleaving]
    exact hheld
  · rw [List.length_nil, Nat.zero_add, hcounted]
    exact hcount

theorem Inv.receive (h : s.Inv ffHashUint32) (hsep : Separate ffHashUint32 s.dc.clientsMap)
    (hmain : s.main = .receiving) (m : Message) :
    ∃ dc main, SharedClients.receive ffHashUint32 s.dc m = .ok (dc, main) ∧
      Inv ffHashUint32 ⟨dc, main, s.cookies⟩ := by
  cases m with
  | addClient streamConnector key => exact h.addClient hmain streamConnector key
  | removeClient key => exact h.removeClient hsep hmain key
  | removeAllClients => exact h.removeAllClients hmain

/-- **The stop of a wrapper ends when it has no users**, and only then. -/
theorem Inv.finishStop {w : Nat} {after : AfterStop} (h : s.Inv ffHashUint32) (hmain : s.main = .waitingEvent w after)
    (hevent : (s.dc.wrappers w).stopEvent = true) :
    ∃ dc main, SharedClients.finishStop s.dc w after = .ok (dc, main) ∧ Inv ffHashUint32 ⟨dc, main, s.cookies⟩ := by
  obtain ⟨dc, main, cookies⟩ := s
  cases hmain
  let others := dc.clientsMap.map Prod.snd ++ after.rest
  have hheld : Holding (w :: others) dc.clientWrappersPool dc.wrappers cookies :=
    h.holding.perm List.perm_middle
  have hcookies : cookies.count w = 0 := by
    obtain ⟨c, hc⟩ := hheld.started w List.mem_cons_self
    dsimp only at hevent
    rw [hc] at hevent
    simpa using hevent
  obtain ⟨⟨c, hc⟩, hstopped⟩ := hheld.stop hcookies
  have hcount : dc.currentClientsCnt = dc.clientsMap.length + after.counted := h.count
  have hbound : dc.currentClientsCnt ≤ dc.maxClientsCnt := h.bound
  unfold SharedClients.finishStop
  rw [stopWrapper_eq dc hc, ok_bind]
  dsimp only
  cases after with
  | rejected =>
    exact ⟨_, _, rfl, hstopped, h.capacity, h.ringed, h.count, h.bound, fun hclears => nomatch hclears⟩
  | removed =>
    refine ⟨_, _, rfl, hstopped, h.capacity, h.ringed, ?_, ?_, fun hclears => nomatch hclears⟩
    · show dc.currentClientsCnt - 1 = dc.clientsMap.length + 0
      rw [AfterStop.counted] at hcount
      omega
    · exact (Nat.sub_le _ _).trans hbound
  | removedAll rest =>
    have hempty : dc.clientsMap = [] := h.cleared rfl
    have hrest : Holding rest (dc.clientWrappersPool.release w) (Function.update dc.wrappers w ⟨none, true, 0⟩)
        cookies := by
      simpa [others, hempty, AfterStop.rest] using hstopped
    rw [hempty, List.length_nil, AfterStop.counted] at hcount
    obtain ⟨main, hnext, hleaving, hcounted⟩ := removeNext_of_holding
      { dc with
        wrappers := Function.update dc.wrappers w ⟨none, true, 0⟩
        deletedConnectors := c :: dc.deletedConnectors
        clientWrappersPool := dc.clientWrappersPool.release w
        currentClientsCnt := dc.currentClientsCnt - 1 } hrest (show dc.currentClientsCnt - 1 = rest.length by omega)
      ((Nat.sub_le _ _).trans hbound)
    refine ⟨_, main, hnext, ?_, h.capacity, h.ringed, ?_, (Nat.sub_le _ _).trans hbound, fun _ => hempty⟩
    · rw [SharedClients.inUse, hleaving]
      dsimp only
      rw [hempty]
      exact hrest
    · rw [hcounted]
      dsimp only
      rw [hempty, List.length_nil]
      omega

end Receive

/-! ## Steps and runs -/

/-- The step is possible: the main fiber is where it has to be, and a wait has ended; a lookup on the ring returns; the
cookie is held. -/
def Enabled (s : SharedClients) : SharedAct → Prop
  | .message _ => s.main = .receiving
  | .clientStopped => ∃ w after, s.main = .stoppingClient w after
  | .eventWaited => ∃ w after, s.main = .waitingEvent w after ∧ (s.dc.wrappers w).stopEvent = true
  | .acquire requestHashValue => s.dc.consistentHash.isEmpty = true ∨
      ∃ w, s.dc.consistentHash.getEntry ffHashUint32 requestHashValue = .ok w
  | .release cookie => cookie ∈ s.cookies

variable {ffHashUint32} {s s' : SharedClients}

/-- **An acquisition hands out a registered client.** -/
theorem Inv.acquire (h : s.Inv ffHashUint32) {requestHashValue : UInt32}
    (hen : s.Enabled ffHashUint32 (.acquire requestHashValue)) :
    (s.dc.consistentHash.isEmpty = true ∧ s.step ffHashUint32 (.acquire requestHashValue) = .ok s) ∨
      ∃ w cw, w ∈ s.dc.clientsMap.map Prod.snd ∧
        s.step ffHashUint32 (.acquire requestHashValue)
          = .ok ⟨{ s.dc with wrappers := Function.update s.dc.wrappers w cw }, s.main, w :: s.cookies⟩ ∧
        Inv ffHashUint32 ⟨{ s.dc with wrappers := Function.update s.dc.wrappers w cw }, s.main, w :: s.cookies⟩ := by
  unfold step tryAcquireClient
  dsimp only
  by_cases hempty : s.dc.consistentHash.isEmpty = true
  · rw [if_pos hempty]
    exact Or.inl ⟨hempty, rfl⟩
  · rw [if_neg hempty]
    right
    obtain ⟨w, hget⟩ := hen.resolve_left hempty
    have hpos : s.dc.consistentHash.entriesCnt > 0 := by
      have hcount := h.ringed.wellFormed.count
      simp only [isEmpty, beq_iff_eq] at hempty
      omega
    have hreg := h.ringed.getEntry hpos hget
    obtain ⟨cw, hcw, hheld⟩ := h.holding.acquire (List.mem_append_left _ hreg)
    refine ⟨w, cw, hreg, ?_, hheld, h.capacity, h.ringed, h.count, h.bound, h.cleared⟩
    rw [hget, ok_bind, hcw]
    rfl

/-- **Every step that is possible is taken without an assertion failing**, and keeps the invariant. -/
theorem Inv.step (h : s.Inv ffHashUint32) (hsep : Separate ffHashUint32 s.dc.clientsMap) {a : SharedAct}
    (hen : s.Enabled ffHashUint32 a) : ∃ s', s.step ffHashUint32 a = .ok s' ∧ s'.Inv ffHashUint32 := by
  cases a with
  | message m =>
    have hmain : s.main = .receiving := hen
    obtain ⟨dc, main, hreceive, hinv⟩ := h.receive hsep hmain m
    refine ⟨_, ?_, hinv⟩
    unfold SharedClients.step
    rw [hmain]
    dsimp only
    rw [hreceive]
    rfl
  | clientStopped =>
    obtain ⟨w, after, hmain⟩ := hen
    obtain ⟨dc, main, cookies⟩ := s
    cases hmain
    refine ⟨_, rfl, h.holding, h.capacity, h.ringed, h.count, h.bound, ?_⟩
    intro hclears
    cases after with
    | rejected => cases hclears
    | removed => cases hclears
    | removedAll rest => exact h.cleared rfl
  | eventWaited =>
    obtain ⟨w, after, hmain, hevent⟩ := hen
    obtain ⟨dc, main, hfinish, hinv⟩ := h.finishStop hmain hevent
    refine ⟨_, ?_, hinv⟩
    unfold SharedClients.step
    rw [hmain]
    dsimp only
    rw [hfinish]
    rfl
  | acquire requestHashValue =>
    rcases h.acquire hen with ⟨-, hstep⟩ | ⟨w, cw, -, hstep, hinv⟩
    · exact ⟨s, hstep, h⟩
    · exact ⟨_, hstep, hinv⟩
  | release cookie =>
    obtain ⟨cw, hcw, hheld⟩ := h.holding.release hen
    refine ⟨⟨{ s.dc with wrappers := Function.update s.dc.wrappers cookie cw }, s.main, s.cookies.erase cookie⟩, ?_,
      hheld, h.capacity, h.ringed, h.count, h.bound, h.cleared⟩
    have hcookie : cookie ∈ s.cookies := hen
    unfold SharedClients.step
    dsimp only
    rw [if_pos hcookie, hcw]
    rfl

theorem enabled_of_step {a : SharedAct} (h : s.step ffHashUint32 a = .ok s') : s.Enabled ffHashUint32 a := by
  cases a with
  | message m =>
    unfold step at h
    dsimp only at h
    split at h
    · rename_i hmain
      exact hmain
    · cases h
  | clientStopped =>
    unfold step at h
    dsimp only at h
    split at h
    · rename_i w after hmain
      exact ⟨w, after, hmain⟩
    · cases h
  | eventWaited =>
    unfold step at h
    dsimp only at h
    split at h
    · rename_i w after hmain
      obtain ⟨⟨dc, main⟩, hfinish, -⟩ := bind_eq_ok h
      unfold finishStop at hfinish
      obtain ⟨dc₁, hstop, -⟩ := bind_eq_ok hfinish
      unfold stopWrapper at hstop
      obtain ⟨⟨c, cw⟩, hstop, -⟩ := bind_eq_ok hstop
      refine ⟨w, after, hmain, ?_⟩
      unfold ClientWrapper.stop at hstop
      cases hevent : (s.dc.wrappers w).stopEvent with
      | true => rfl
      | false =>
        rw [hevent] at hstop
        split at hstop <;> cases hstop
    · cases h
  | acquire requestHashValue =>
    unfold step tryAcquireClient at h
    dsimp only at h
    by_cases hempty : s.dc.consistentHash.isEmpty = true
    · exact Or.inl hempty
    · rw [if_neg hempty] at h
      obtain ⟨r, hget, -⟩ := bind_eq_ok h
      obtain ⟨w, hget, -⟩ := bind_eq_ok hget
      exact Or.inr ⟨w, hget⟩
  | release cookie =>
    unfold step at h
    dsimp only at h
    split at h
    · rename_i hcookie
      exact hcookie
    · cases h

variable (ffHashUint32) in
/-- The states that are reached while the ring points of different registered clients do not coincide. -/
inductive Reached (dc₀ : DistributedClient) : SharedClients → Prop where
  | start : Reached dc₀ (start dc₀)
  | step {s s' : SharedClients} {a : SharedAct} (hs : Reached dc₀ s) (hstep : s.step ffHashUint32 a = .ok s')
    (hsep : Separate ffHashUint32 s'.dc.clientsMap) : Reached dc₀ s'

theorem inv_start {order : Nat} {dc₀ : DistributedClient} (hcreate : DistributedClient.create order = .ok dc₀) :
    (start dc₀).Inv ffHashUint32 ∧ Separate ffHashUint32 dc₀.clientsMap := by
  obtain ⟨h₀, hempty, hentries⟩ := accounted_create ffHashUint32 hcreate
  have huse : (start dc₀).inUse = [] := by
    rw [inUse, start, hempty]
    rfl
  refine ⟨⟨⟨?_, h₀.pool, ?_, ?_, ?_⟩, h₀.capacity, ⟨h₀.ring, h₀.factor, h₀.keys, ?_⟩, ?_, h₀.bound,
    fun hclears => nomatch hclears⟩, ?_⟩
  · rw [huse]
    exact List.nodup_nil
  · intro n
    have hn := h₀.inUse n
    rw [hempty] at hn
    rw [huse]
    exact hn
  · intro n hn
    rw [huse] at hn
    cases hn
  · intro n _
    obtain ⟨h1, h2⟩ := h₀.idle n (by rw [hempty]; exact List.not_mem_nil)
    exact ⟨h1, h2, rfl⟩
  · intro p
    show atKey Entry.point p.toNat dc₀.consistentHash.entries = _
    rw [hentries]
    show _ = dc₀.clientsMap.flatMap _
    rw [hempty]
    rfl
  · exact h₀.count
  · intro c hc
    rw [hempty] at hc
    cases hc

theorem inv_of_reached {order : Nat} {dc₀ : DistributedClient} (hcreate : DistributedClient.create order = .ok dc₀)
    (hs : Reached ffHashUint32 dc₀ s) : s.Inv ffHashUint32 ∧ Separate ffHashUint32 s.dc.clientsMap := by
  induction hs with
  | start => exact inv_start hcreate
  | step _ hstep hsep ih =>
    obtain ⟨s', hs', hinv⟩ := ih.1.step ih.2 (enabled_of_step hstep)
    rw [hstep] at hs'
    cases hs'
    exact ⟨hinv, hsep⟩

/-! ## Acquired clients outlive their users -/

theorem Inv.refCnt (h : s.Inv ffHashUint32) (n : Nat) : (s.dc.wrappers n).refCnt = s.cookies.count n := by
  by_cases hn : n ∈ s.inUse
  · obtain ⟨c, hc⟩ := h.holding.started n hn
    rw [hc]
  · obtain ⟨-, hunused, hcookies⟩ := h.holding.idle n hn
    rw [hunused, hcookies]

theorem Inv.mem_inUse (h : s.Inv ffHashUint32) {n : Nat} (hn : (s.dc.wrappers n).streamConnector ≠ none) :
    n ∈ s.inUse := by
  by_contra hnot
  exact hn (h.holding.idle n hnot).1

/-- **A wrapper is given up only when it has no users.** -/
theorem Inv.unused_of_given_up (h : s.Inv ffHashUint32) (h' : s'.Inv ffHashUint32) {a : SharedAct}
    (hstep : s.step ffHashUint32 a = .ok s') {n : Nat} (hn : n ∈ s.inUse) (hn' : n ∉ s'.inUse) :
    (s.dc.wrappers n).refCnt = 0 := by
  -- the main fiber's steps leave the cookies, the others the wrappers in use
  have hcases : s'.cookies = s.cookies ∨ s'.inUse = s.inUse := by
    have hen := enabled_of_step hstep
    cases a with
    | message m =>
      left
      unfold SharedClients.step at hstep
      rw [show s.main = .receiving from hen] at hstep
      obtain ⟨⟨dc, main⟩, -, hstep⟩ := bind_eq_ok hstep
      cases hstep
      rfl
    | clientStopped =>
      left
      obtain ⟨w, after, hmain⟩ := hen
      unfold SharedClients.step at hstep
      rw [hmain] at hstep
      cases hstep
      rfl
    | eventWaited =>
      left
      obtain ⟨w, after, hmain, -⟩ := hen
      unfold SharedClients.step at hstep
      rw [hmain] at hstep
      obtain ⟨⟨dc, main⟩, -, hstep⟩ := bind_eq_ok hstep
      cases hstep
      rfl
    | acquire requestHashValue =>
      right
      rcases h.acquire hen with ⟨-, heq⟩ | ⟨w, cw, -, heq, -⟩
      · rw [heq] at hstep
        cases hstep
        rfl
      · rw [heq] at hstep
        cases hstep
        rfl
    | release cookie =>
      right
      unfold SharedClients.step at hstep
      dsimp only at hstep
      rw [if_pos (show cookie ∈ s.cookies from hen)] at hstep
      obtain ⟨cw, -, hstep⟩ := bind_eq_ok hstep
      cases hstep
      rfl
  rcases hcases with hcookies | huse
  · rw [h.refCnt n, ← hcookies]
    exact (h'.holding.idle n hn').2.2
  · exact absurd (huse ▸ hn) hn'

variable (ffHashUint32) in
/-- What holds of the wrappers and their users in a state, and of every step from it. -/
structure Outlived (s : SharedClients) : Prop where
  refCnt : ∀ n, (s.dc.wrappers n).refCnt = s.cookies.count n
  stopEvent : ∀ n, (s.dc.wrappers n).streamConnector ≠ none →
    ((s.dc.wrappers n).stopEvent = true ↔ (s.dc.wrappers n).refCnt = 0)
  pooled : ∀ n ∈ s.dc.clientWrappersPool.free,
    (s.dc.wrappers n).streamConnector = none ∧ (s.dc.wrappers n).refCnt = 0
  noAssertion : ∀ a, s.Enabled ffHashUint32 a → ∃ s', s.step ffHashUint32 a = .ok s'
  deleted : ∀ a s', s.step ffHashUint32 a = .ok s' → ∀ n, (s.dc.wrappers n).streamConnector ≠ none →
    (s'.dc.wrappers n).streamConnector = none → (s.dc.wrappers n).refCnt = 0
  returned : ∀ a s', s.step ffHashUint32 a = .ok s' → ∀ n, s.dc.clientWrappersPool.InUse id n →
    n ∈ s'.dc.clientWrappersPool.free → (s.dc.wrappers n).refCnt = 0
  acquired : ∀ requestHashValue s', s.step ffHashUint32 (.acquire requestHashValue) = .ok s' →
    ∀ w, s'.cookies = w :: s.cookies → w ∈ s.dc.clientsMap.map Prod.snd ∧ w ∉ s.main.leaving

/-- **Acquired clients outlive their users**, in every interleaving of messages, acquisitions and releases in which the
ring points of different registered clients never coincide. -/
theorem outlived_of_reached (order : Nat) (dc₀ : DistributedClient)
    (hcreate : DistributedClient.create order = .ok dc₀) (s : SharedClients) (hs : Reached ffHashUint32 dc₀ s) :
    s.Outlived ffHashUint32 := by
  obtain ⟨h, hsep⟩ := inv_of_reached hcreate hs
  have hnext : ∀ {a s'}, s.step ffHashUint32 a = .ok s' → s'.Inv ffHashUint32 := by
    intro a s' hstep
    obtain ⟨t, ht, hinv⟩ := h.step hsep (enabled_of_step hstep)
    rw [hstep] at ht
    cases ht
    exact hinv
  have hfree : ∀ {t : SharedClients}, t.Inv ffHashUint32 → ∀ {n}, n ∈ t.dc.clientWrappersPool.free → n ∉ t.inUse := by
    intro t ht n hn huse
    exact ((ht.holding.inUse n).2 huse).2 (by simpa using hn)
  constructor
  · exact h.refCnt
  · intro n hn
    obtain ⟨c, hc⟩ := h.holding.started n (h.mem_inUse hn)
    rw [hc]
    simp
  · intro n hn
    obtain ⟨h1, h2, -⟩ := h.holding.idle n (hfree h hn)
    exact ⟨h1, h2⟩
  · intro a hen
    obtain ⟨t, ht, -⟩ := h.step hsep hen
    exact ⟨t, ht⟩
  · intro a s' hstep n hn hn'
    refine h.unused_of_given_up (hnext hstep) hstep (h.mem_inUse hn) ?_
    intro hmem
    obtain ⟨c, hc⟩ := (hnext hstep).holding.started n hmem
    rw [hc] at hn'
    cases hn'
  · intro a s' hstep n hn hn'
    exact h.unused_of_given_up (hnext hstep) hstep ((h.holding.inUse n).1 hn) (hfree (hnext hstep) hn')
  · intro requestHashValue s' hstep w hcookies
    rcases h.acquire (enabled_of_step hstep) with ⟨-, heq⟩ | ⟨w', cw, hreg, heq, -⟩
    · rw [heq] at hstep
      cases hstep
      exact absurd hcookies (by simp)
    · rw [heq] at hstep
      cases hstep
      obtain rfl : w' = w := (List.cons.inj hcookies).1
      refine ⟨hreg, ?_⟩
      intro hleaving
      exact (List.nodup_append.1 h.holding.nodup).2.2 w' hreg w' hleaving rfl

/-- A run given by its steps. -/
theorem reached_of_foldlM {dc₀ : DistributedClient} (as : List SharedAct) :
    ∀ {s : SharedClients}, as.foldlM (SharedClients.step ffHashUint32) (start dc₀) = .ok s →
    (∀ bs t, bs <+: as → bs.foldlM (SharedClients.step ffHashUint32) (start dc₀) = .ok t →
      Separate ffHashUint32 t.dc.clientsMap) → Reached ffHashUint32 dc₀ s := by
  induction as using List.reverseRecOn with
  | nil =>
    intro s h _
    cases h
    exact .start
  | append_singleton as a ih =>
    intro s h hsep
    have hlast := hsep _ s (List.prefix_refl _) h
    rw [List.foldlM_append] at h
    obtain ⟨t, ht, h⟩ := bind_eq_ok h
    have hstep : t.step ffHashUint32 a = .ok s := by
      rw [List.foldlM_cons] at h
      obtain ⟨u, hu, h⟩ := bind_eq_ok h
      cases h
      exact hu
    exact .step (ih ht fun bs u hbs => hsep bs u (hbs.trans (List.prefix_append _ _))) hstep hlast

theorem separate_of_length_le {clientsMap : List (UInt64 × Nat)} (h : clientsMap.length ≤ 1) :
    Separate ffHashUint32 clientsMap := by
  intro c hc c' hc' hne
  match clientsMap, h, hc, hc' with
  | [x], _, hc, hc' =>
    rw [List.mem_singleton] at hc hc'
    exact absurd (by rw [hc, hc']) hne

/-- One client is registered, acquired and removed: its wrapper waits for the user. -/
theorem outlived_add_acquire_remove :
    ∃ s, [SharedAct.message (.addClient 10 1), .acquire 5, .message (.removeClient 1)].foldlM
        (SharedClients.step hashZero) (start small) = .ok s ∧ s.cookies = [0] ∧ s.Outlived hashZero := by
  have hrun : ([SharedAct.message (.addClient 10 1), .acquire 5, .message (.removeClient 1)].foldlM
      (SharedClients.step hashZero) (start small)).map (fun s => s.cookies) = .ok [0] := by decide +kernel
  have hone : ∀ bs ∈ [SharedAct.message (.addClient 10 1), .acquire 5, .message (.removeClient 1)].inits,
      ((bs.foldlM (SharedClients.step hashZero) (start small)).map fun s => decide (s.dc.clientsMap.length ≤ 1))
        = .ok true := by decide +kernel
  cases h : [SharedAct.message (.addClient 10 1), .acquire 5, .message (.removeClient 1)].foldlM
      (SharedClients.step hashZero) (start small) with
  | error e =>
    rw [h] at hrun
    cases hrun
  | ok s =>
    rw [h] at hrun
    refine ⟨s, rfl, Except.ok.inj hrun, outlived_of_reached 0 small rfl s (reached_of_foldlM _ h ?_)⟩
    intro bs t hbs ht
    have hlen := hone bs ((List.mem_inits bs _).2 hbs)
    rw [ht] at hlen
    exact separate_of_length_le (of_decide_eq_true (Except.ok.inj hlen))

end SharedClients
end Mrpc
