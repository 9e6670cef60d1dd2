import MultiplexingRpc.Ring
import MultiplexingRpc.Lib.Pool
/-!
# DistributedClient — the registry of clients and its ring (`mrpc_distributed_client.c`)

The main fiber takes messages from the controller: it adds a client under a 64-bit key, removes one, or removes all.
A client is a wrapper from a bounded pool, registered in `clients_map` under its key and on the consistent hash at the
128 points of the key's 32-bit hash.  Two keys may share points, and the ring's removal takes the first entry at a point
whoever put it there; so the two indexes agree as long as no client is removed from under a later one
(`ringAgrees_of_undisturbed`).

A message is handled as one step: `mrpc_distributed_client_wrapper_stop` returns once the client has stopped and its last
user has gone.  `ff_dictionary` is a finite map, kept here in the order of registration, latest first.
-/
namespace Mrpc

open KeyedList ConsistentHash

/-! ## The client wrapper (`mrpc_distributed_client_wrapper.c`) -/

/-- `struct mrpc_distributed_client_wrapper`; a stream connector is named by its address. -/
structure ClientWrapper where
  streamConnector : Option Nat
  stopEvent : Bool
  refCnt : Nat
  deriving DecidableEq, Repr

namespace ClientWrapper

def create : ClientWrapper := ⟨none, false, 0⟩

def start (w : ClientWrapper) (streamConnector : Nat) : Except Fault ClientWrapper := do
  ffAssert (w.streamConnector = none)
  ffAssert (w.refCnt = 0)
  return { w with streamConnector := some streamConnector, stopEvent := true }

/-- `mrpc_distributed_client_wrapper_stop`, with the connector it deletes.  The wait for the event does not end while a
user holds the client. -/
def stop (w : ClientWrapper) : Except Fault (Nat × ClientWrapper) :=
  match w.streamConnector with
  | none => .error .assertion
  | some streamConnector => do
    if !w.stopEvent then throw .blocked
    ffAssert (w.refCnt = 0)
    return (streamConnector, { w with streamConnector := none })

def acquireClient (w : ClientWrapper) : Except Fault ClientWrapper := do
  ffAssert (w.streamConnector ≠ none)
  return { w with refCnt := w.refCnt + 1, stopEvent := if w.refCnt + 1 = 1 then false else w.stopEvent }

end ClientWrapper

/-! ## The wrappers in use -/

/-- **The wrappers in use are `ns`**: they are out of the pool and started, each counts the cookies for it, and its event
is set when there are none.  The others are stopped and have no users. -/
structure SharedClients.Holding (ns : List Nat) (pool : Pool Nat) (wrappers : Nat → ClientWrapper)
    (cookies : List Nat) : Prop where
  nodup : ns.Nodup
  wellFormed : pool.WellFormed id
  inUse : ∀ n, pool.InUse id n ↔ n ∈ ns
  started : ∀ n ∈ ns, ∃ c, wrappers n = ⟨some c, decide (cookies.count n = 0), cookies.count n⟩
  idle : ∀ n, n ∉ ns → (wrappers n).streamConnector = none ∧ (wrappers n).refCnt = 0 ∧ cookies.count n = 0

namespace SharedClients.Holding

variable {ns : List Nat} {pool : Pool Nat} {wrappers : Nat → ClientWrapper} {cookies : List Nat}

theorem perm {ms : List Nat} (h : Holding ns pool wrappers cookies) (hperm : ns.Perm ms) :
    Holding ms pool wrappers cookies := by
  constructor
  · exact hperm.nodup_iff.1 h.nodup
  · exact h.wellFormed
  · intro n
    rw [h.inUse n, hperm.mem_iff]
  · intro n hn
    exact h.started n (hperm.mem_iff.2 hn)
  · intro n hn
    exact h.idle n (fun hm => hn (hperm.mem_iff.1 hm))

/-- A wrapper taken from the pool and started. -/
theorem start {w : Nat} {pool' : Pool Nat} (h : Holding ns pool wrappers cookies) (hpool : pool'.WellFormed id)
    (hnew : w ∉ ns) (huse : ∀ n, pool'.InUse id n ↔ n = w ∨ n ∈ ns) (c : Nat) :
    Holding (w :: ns) pool' (Function.update wrappers w ⟨some c, true, 0⟩) cookies := by
  constructor
  · exact List.nodup_cons.2 ⟨hnew, h.nodup⟩
  · exact hpool
  · intro n
    rw [huse n, List.mem_cons]
  · intro n hn
    by_cases hnw : n = w
    · subst hnw
      refine ⟨c, ?_⟩
      rw [Function.update_self, (h.idle n hnew).2.2]
      rfl
    · rw [Function.update_of_ne hnw]
      exact h.started n ((List.mem_cons.1 hn).resolve_left hnw)
  · intro n hn
    rw [List.mem_cons, not_or] at hn
    rw [Function.update_of_ne hn.1]
    exact h.idle n hn.2

/-- A wrapper without users is stopped and goes back to the pool. -/
theorem stop {w : Nat} (h : Holding (w :: ns) pool wrappers cookies) (hcookies : cookies.count w = 0) :
    (∃ c, wrappers w = ⟨some c, true, 0⟩) ∧
      Holding ns (pool.release w) (Function.update wrappers w ⟨none, true, 0⟩) cookies := by
  obtain ⟨hw, hnodup⟩ := List.nodup_cons.1 h.nodup
  obtain ⟨hrel, hrelUse⟩ := Pool.release_spec (a := w) h.wellFormed ((h.inUse w).2 List.mem_cons_self)
  refine ⟨?_, hnodup, hrel, ?_, ?_, ?_⟩
  · obtain ⟨c, hc⟩ := h.started w List.mem_cons_self
    rw [hcookies] at hc
    exact ⟨c, hc⟩
  · intro n
    rw [hrelUse n, h.inUse n, List.mem_cons]
    constructor
    · rintro ⟨hne, hn⟩
      exact hn.resolve_left hne
    · intro hn
      refine ⟨?_, Or.inr hn⟩
      rintro rfl
      exact hw hn
  · intro n hn
    have hne : n ≠ w := by
      rintro rfl
      exact hw hn
    rw [Function.update_of_ne hne]
    exact h.started n (List.mem_cons_of_mem _ hn)
  · intro n hn
    by_cases hnw : n = w
    · subst hnw
      rw [Function.update_self]
      exact ⟨rfl, rfl, hcookies⟩
    · rw [Function.update_of_ne hnw]
      exact h.idle n (fun hm => hn ((List.mem_cons.1 hm).resolve_left hnw))

end SharedClients.Holding

/-! ## The distributed client -/

/-- `struct mrpc_distributed_client` while it is started, the wrappers by their number in the pool, and the connectors
deleted so far. -/
structure DistributedClient where
  clientsMap : List (UInt64 × Nat)
  consistentHash : ConsistentHash Nat
  clientWrappersPool : Pool Nat
  wrappers : Nat → ClientWrapper
  maxClientsCnt : Nat
  currentClientsCnt : Nat
  deletedConnectors : List Nat

/-- The messages of the controller that the main loop handles before it ends. -/
inductive Message where
  | addClient (streamConnector : Nat) (key : UInt64)
  | removeClient (key : UInt64)
  | removeAllClients
  deriving DecidableEq, Repr

/-- The connectors that come with a message. -/
def Message.arrived : Message → List Nat
  | .addClient streamConnector _ => [streamConnector]
  | _ => []

namespace DistributedClient

variable (ffHashUint32 : UInt32 → List UInt32 → UInt32)

def uniformFactor : Nat := 2 ^ 7

/-- `get_u64_hash`. -/
def getU64Hash (key : UInt64) : UInt32 := ffHashUint32 0 [key.toUInt32, (key >>> 32).toUInt32]

/-- `mrpc_distributed_client_create`. -/
def create (expectedClientsOrder : Nat) : Except Fault DistributedClient := do
  ffAssert (expectedClientsOrder + 7 ≤ 20)
  let consistentHash ← ConsistentHash.create (expectedClientsOrder + 7) uniformFactor
  let maxClientsCnt := 2 ^ (1 + expectedClientsOrder)
  return ⟨[], consistentHash, Pool.empty maxClientsCnt, fun _ => ClientWrapper.create, maxClientsCnt, 0, []⟩

def acquireClientWrapper (dc : DistributedClient) : Except Fault (Nat × DistributedClient) :=
  match dc.clientWrappersPool.acquire id with
  | none => .error .blocked
  | some (w, pool) => .ok (w, { dc with clientWrappersPool := pool })

def releaseClientWrapper (dc : DistributedClient) (w : Nat) : DistributedClient :=
  { dc with clientWrappersPool := dc.clientWrappersPool.release w }

def startWrapper (dc : DistributedClient) (w streamConnector : Nat) : Except Fault DistributedClient := do
  let cw ← (dc.wrappers w).start streamConnector
  return { dc with wrappers := Function.update dc.wrappers w cw }

def stopWrapper (dc : DistributedClient) (w : Nat) : Except Fault DistributedClient := do
  let (streamConnector, cw) ← (dc.wrappers w).stop
  return { dc with wrappers := Function.update dc.wrappers w cw,
                   deletedConnectors := streamConnector :: dc.deletedConnectors }

/-- `add_client`. -/
def addClient (dc : DistributedClient) (streamConnector : Nat) (key : UInt64) : Except Fault DistributedClient := do
  ffAssert (dc.currentClientsCnt ≤ dc.maxClientsCnt)
  if dc.currentClientsCnt = dc.maxClientsCnt then
    return { dc with deletedConnectors := streamConnector :: dc.deletedConnectors }
  let (w, dc) ← dc.acquireClientWrapper
  let dc ← dc.startWrapper w streamConnector
  if dc.clientsMap.any (fun c => c.1 == key) then
    -- the key is registered already: the new client goes again
    let dc ← dc.stopWrapper w
    return dc.releaseClientWrapper w
  let consistentHash ← dc.consistentHash.addEntry ffHashUint32 (getU64Hash ffHashUint32 key) w
  return { dc with clientsMap := (key, w) :: dc.clientsMap, consistentHash := consistentHash,
                   currentClientsCnt := dc.currentClientsCnt + 1 }

/-- `remove_client`. -/
def removeClient (dc : DistributedClient) (key : UInt64) : Except Fault DistributedClient :=
  match dc.clientsMap.find? (fun c => c.1 == key) with
  | none => .ok dc
  | some (_, w) => do
    let dc := { dc with clientsMap := dc.clientsMap.filter (fun c => c.1 != key) }
    ffAssert (dc.currentClientsCnt > 0)
    ffAssert (dc.currentClientsCnt ≤ dc.maxClientsCnt)
    let consistentHash ← dc.consistentHash.removeEntry ffHashUint32 (getU64Hash ffHashUint32 key)
    let dc ← { dc with consistentHash := consistentHash }.stopWrapper w
    let dc := dc.releaseClientWrapper w
    return { dc with currentClientsCnt := dc.currentClientsCnt - 1 }

/-- `remove_client_wrapper_entry`, the callback of `ff_dictionary_remove_all_entries`. -/
def removeClientWrapperEntry (dc : DistributedClient) (w : Nat) : Except Fault DistributedClient := do
  ffAssert (dc.currentClientsCnt > 0)
  ffAssert (dc.currentClientsCnt ≤ dc.maxClientsCnt)
  let dc ← dc.stopWrapper w
  let dc := dc.releaseClientWrapper w
  return { dc with currentClientsCnt := dc.currentClientsCnt - 1 }

/-- `remove_all_clients`. -/
def removeAllClients (dc : DistributedClient) : Except Fault DistributedClient := do
  let consistentHash ← dc.consistentHash.removeAllEntries
  let ws := dc.clientsMap.map Prod.snd
  let dc ← ws.foldlM removeClientWrapperEntry { dc with consistentHash := consistentHash, clientsMap := [] }
  ffAssert (dc.currentClientsCnt = 0)
  return dc

/-- One turn of `distributed_client_main_func`. -/
def handle (dc : DistributedClient) : Message → Except Fault DistributedClient
  | .addClient streamConnector key => dc.addClient ffHashUint32 streamConnector key
  | .removeClient key => dc.removeClient ffHashUint32 key
  | .removeAllClients => dc.removeAllClients

/-- One try of `mrpc_distributed_client_acquire_client`: the wrapper handed out (the cookie), if any is registered. -/
def tryAcquireClient (dc : DistributedClient) (requestHashValue : UInt32) :
    Except Fault (Option Nat × DistributedClient) := do
  if dc.consistentHash.isEmpty then return (none, dc)
  let w ← dc.consistentHash.getEntry ffHashUint32 requestHashValue
  let cw ← (dc.wrappers w).acquireClient
  return (some w, { dc with wrappers := Function.update dc.wrappers w cw })

/-! ## Accounting -/

/-- The ring points of a client's key. -/
def ringPoints (key : UInt64) : List UInt32 := points ffHashUint32 uniformFactor (getU64Hash ffHashUint32 key)

/-- What holds between messages: registered wrappers are distinct, started, unused and exactly those out of the pool;
and each point of the ring carries as many entries as the registered keys put there. -/
structure Accounted (dc : DistributedClient) : Prop where
  ring : dc.consistentHash.WellFormed
  factor : dc.consistentHash.uniformFactor = uniformFactor
  keys : (dc.clientsMap.map Prod.fst).Nodup
  distinct : (dc.clientsMap.map Prod.snd).Nodup
  pool : dc.clientWrappersPool.WellFormed id
  capacity : dc.clientWrappersPool.capacity = dc.maxClientsCnt
  count : dc.currentClientsCnt = dc.clientsMap.length
  bound : dc.currentClientsCnt ≤ dc.maxClientsCnt
  inUse : ∀ n, dc.clientWrappersPool.InUse id n ↔ n ∈ dc.clientsMap.map Prod.snd
  started : ∀ n ∈ dc.clientsMap.map Prod.snd, ∃ s, dc.wrappers n = ⟨some s, true, 0⟩
  idle : ∀ n, n ∉ dc.clientsMap.map Prod.snd → (dc.wrappers n).streamConnector = none ∧ (dc.wrappers n).refCnt = 0
  heights : ∀ p : UInt32, (atKey Entry.point p.toNat dc.consistentHash.entries).length =
    (dc.clientsMap.map (fun c => (ringPoints ffHashUint32 c.1).count p)).sum

/-- The connectors that were handed over: those deleted, and those of the registered clients. -/
def connectors (dc : DistributedClient) : List Nat :=
  dc.deletedConnectors ++ dc.clientsMap.filterMap (fun c => (dc.wrappers c.2).streamConnector)

/-- No connector is lost or deleted twice: those handed over are the ones before and the ones that arrived. -/
structure Keeps (dc : DistributedClient) (arrived : List Nat) (dc' : DistributedClient) : Prop where
  connectors : dc'.connectors.Perm (arrived ++ dc.connectors)
  maxClientsCnt : dc'.maxClientsCnt = dc.maxClientsCnt

theorem filterMap_update {l : List (UInt64 × Nat)} {w : Nat} (hw : w ∉ l.map Prod.snd) (wrappers : Nat → ClientWrapper)
    (cw : ClientWrapper) :
    l.filterMap (fun c => (Function.update wrappers w cw c.2).streamConnector)
      = l.filterMap (fun c => (wrappers c.2).streamConnector) := by
  apply List.filterMap_congr
  intro c hc
  rw [Function.update_of_ne]
  rintro rfl
  exact hw (List.mem_map.2 ⟨c, hc, rfl⟩)

/-- Between messages nobody holds a client. -/
theorem Accounted.holding {dc : DistributedClient} (h : dc.Accounted ffHashUint32) :
    SharedClients.Holding (dc.clientsMap.map Prod.snd) dc.clientWrappersPool dc.wrappers [] :=
  ⟨h.distinct, h.pool, h.inUse, h.started, fun n hn => ⟨(h.idle n hn).1, (h.idle n hn).2, rfl⟩⟩

theorem accounted_of_holding {dc : DistributedClient} (hring : dc.consistentHash.WellFormed)
    (hfactor : dc.consistentHash.uniformFactor = uniformFactor) (hkeys : (dc.clientsMap.map Prod.fst).Nodup)
    (hheld : SharedClients.Holding (dc.clientsMap.map Prod.snd) dc.clientWrappersPool dc.wrappers [])
    (hcapacity : dc.clientWrappersPool.capacity = dc.maxClientsCnt) (hcount : dc.currentClientsCnt = dc.clientsMap.length)
    (hbound : dc.currentClientsCnt ≤ dc.maxClientsCnt)
    (hheights : ∀ p : UInt32, (atKey Entry.point p.toNat dc.consistentHash.entries).length =
      (dc.clientsMap.map (fun c => (ringPoints ffHashUint32 c.1).count p)).sum) : dc.Accounted ffHashUint32 :=
  ⟨hring, hfactor, hkeys, hheld.nodup, hheld.wellFormed, hcapacity, hcount, hbound, hheld.inUse, hheld.started,
    fun n hn => ⟨(hheld.idle n hn).1, (hheld.idle n hn).2.1⟩, hheights⟩

theorem accounted_create {order : Nat} {dc : DistributedClient} (h : create order = .ok dc) :
    dc.Accounted ffHashUint32 ∧ dc.clientsMap = [] ∧ dc.consistentHash.entries = [] := by
  obtain ⟨_, _, h⟩ := bind_eq_ok h
  obtain ⟨ch, hch, h⟩ := bind_eq_ok h
  cases h
  obtain ⟨hwf, -, huf, hent⟩ := wellFormed_create (by omega) hch
  refine ⟨⟨hwf, huf, List.nodup_nil, List.nodup_nil, Pool.wellFormed_empty _ _, rfl, rfl, Nat.zero_le _, fun n => ?_,
    by simp, fun n _ => ⟨rfl, rfl⟩, fun p => ?_⟩, rfl, hent⟩
  · exact iff_of_false (Pool.not_inUse_empty _ _ n) (by simp)
  · dsimp only
    rw [hent]
    rfl

/-- A wrapper is left in the pool while fewer are in use than it can make. -/
theorem acquireClientWrapper_of_holding (dc : DistributedClient) {ns cookies : List Nat}
    (hheld : SharedClients.Holding ns dc.clientWrappersPool dc.wrappers cookies)
    (hlen : ns.length < dc.clientWrappersPool.capacity) :
    ∃ w pool, dc.acquireClientWrapper = .ok (w, { dc with clientWrappersPool := pool }) ∧
      pool.capacity = dc.clientWrappersPool.capacity ∧ w ∉ ns ∧
      ∀ c, SharedClients.Holding (w :: ns) pool (Function.update dc.wrappers w ⟨some c, true, 0⟩) cookies := by
  obtain ⟨w, pool, hacquire, hpool, hcap, hnew, huse⟩ :=
    Pool.acquire_of_length_lt (show ∀ n : Nat, id (id n) = n from fun _ => rfl) hheld.wellFormed hheld.inUse hlen
  refine ⟨w, pool, ?_, hcap, hnew, hheld.start hpool hnew huse⟩
  rw [DistributedClient.acquireClientWrapper, hacquire]

theorem startWrapper_eq (dc : DistributedClient) {w : Nat} (h1 : (dc.wrappers w).streamConnector = none)
    (h2 : (dc.wrappers w).refCnt = 0) (s : Nat) :
    dc.startWrapper w s = .ok { dc with wrappers := Function.update dc.wrappers w ⟨some s, true, 0⟩ } := by
  have hst : (dc.wrappers w).start s = .ok ⟨some s, true, 0⟩ := by
    generalize dc.wrappers w = cw at h1 h2
    obtain ⟨c, e, r⟩ := cw
    cases h1
    cases h2
    rfl
  rw [startWrapper, hst, ok_bind]
  rfl

theorem stopWrapper_eq (dc : DistributedClient) {w s : Nat} (h : dc.wrappers w = ⟨some s, true, 0⟩) :
    dc.stopWrapper w = .ok { dc with wrappers := Function.update dc.wrappers w ⟨none, true, 0⟩,
                                     deletedConnectors := s :: dc.deletedConnectors } := by
  rw [stopWrapper, h]
  rfl

theorem any_key_iff {l : List (UInt64 × Nat)} {key : UInt64} :
    l.any (fun c => c.1 == key) = true ↔ key ∈ l.map Prod.fst := by
  rw [List.any_eq_true, List.mem_map]
  exact ⟨fun ⟨c, hc, he⟩ => ⟨c, hc, by simpa using he⟩, fun ⟨c, hc, he⟩ => ⟨c, hc, by simpa using he⟩⟩

theorem ringPoints_ne_nil (key : UInt64) : ringPoints ffHashUint32 key ≠ [] := by
  rw [ringPoints, points, uniformFactor, ne_eq, List.map_eq_nil_iff]
  exact fun h => absurd (congrArg List.length h) (by simp)

/-- A client goes on the ring at its key's points. -/
theorem addEntry_ring {ch : ConsistentHash Nat} (hwf : ch.WellFormed) (hfactor : ch.uniformFactor = uniformFactor)
    (key : UInt64) (w : Nat) :
    ∃ ch', ch.addEntry ffHashUint32 (getU64Hash ffHashUint32 key) w = .ok ch' ∧ ch'.WellFormed ∧
      ch'.uniformFactor = uniformFactor ∧
      ∀ p : UInt32, atKey Entry.point p.toNat ch'.entries =
        List.replicate ((ringPoints ffHashUint32 key).count p) ⟨p, w⟩ ++ atKey Entry.point p.toNat ch.entries := by
  obtain ⟨ch', hch', hwf', hfactor', -, hstack⟩ := hwf.addPoints w (ringPoints ffHashUint32 key)
  refine ⟨ch', ?_, hwf', hfactor'.trans hfactor, hstack⟩
  rw [addEntry, hfactor]
  exact hch'

/-- A key is taken off a ring that has its points: each loses as many entries as the key put there. -/
theorem removeEntry_ring {ch : ConsistentHash Nat} (hwf : ch.WellFormed) (hfactor : ch.uniformFactor = uniformFactor)
    (key : UInt64)
    (hcount : ∀ p : UInt32, (ringPoints ffHashUint32 key).count p ≤ (atKey Entry.point p.toNat ch.entries).length) :
    ∃ ch', ch.removeEntry ffHashUint32 (getU64Hash ffHashUint32 key) = .ok ch' ∧ ch'.WellFormed ∧
      ch'.uniformFactor = uniformFactor ∧
      ∀ p : UInt32, atKey Entry.point p.toNat ch'.entries =
        (atKey Entry.point p.toNat ch.entries).drop ((ringPoints ffHashUint32 key).count p) := by
  obtain ⟨ch', hch', hwf', hfactor', -, hdrop⟩ := hwf.removePoints (ringPoints ffHashUint32 key) hcount
  have hpos : ch.entriesCnt > 0 := by
    obtain ⟨p, hp⟩ := List.exists_mem_of_ne_nil _ (ringPoints_ne_nil ffHashUint32 key)
    have h1 := List.count_pos_iff.2 hp
    have h2 := hcount p
    have h3 : (atKey Entry.point p.toNat ch.entries).length ≤ ch.entries.length := List.length_filter_le _ _
    rw [hwf.count]
    omega
  refine ⟨ch', ?_, hwf', hfactor'.trans hfactor, hdrop⟩
  rw [removeEntry, ffAssert_of hpos, ok_bind, hfactor]
  exact hch'

/-- **What adding a client does**: with the registry full or the key registered, the registry and the ring stay; else a
wrapper not yet registered goes on the ring at the key's points. -/
theorem Accounted.addClient {dc : DistributedClient} (h : dc.Accounted ffHashUint32) (s : Nat) (key : UInt64) :
    ∃ dc', dc.addClient ffHashUint32 s key = .ok dc' ∧ dc'.Accounted ffHashUint32 ∧ dc.Keeps [s] dc' ∧
      ((dc'.clientsMap = dc.clientsMap ∧ dc'.consistentHash = dc.consistentHash) ∨
        ∃ w, dc'.clientsMap = (key, w) :: dc.clientsMap ∧
          ∀ p : UInt32, atKey Entry.point p.toNat dc'.consistentHash.entries =
            List.replicate ((ringPoints ffHashUint32 key).count p) ⟨p, w⟩ ++
              atKey Entry.point p.toNat dc.consistentHash.entries) := by
  unfold DistributedClient.addClient
  rw [ffAssert_of h.bound, ok_bind]
  by_cases hfull : dc.currentClientsCnt = dc.maxClientsCnt
  · rw [if_pos hfull]
    exact ⟨_, rfl, ⟨h.ring, h.factor, h.keys, h.distinct, h.pool, h.capacity, h.count, h.bound, h.inUse, h.started,
      h.idle, h.heights⟩, ⟨List.Perm.refl _, rfl⟩, Or.inl ⟨rfl, rfl⟩⟩
  rw [if_neg hfull]
  have hlen : (dc.clientsMap.map Prod.snd).length < dc.clientWrappersPool.capacity := by
    have hbound := h.bound
    rw [List.length_map, ← h.count, h.capacity]
    omega
  obtain ⟨w, pool, hacquire, hcap, hnew, hstart⟩ := dc.acquireClientWrapper_of_holding (h.holding ffHashUint32) hlen
  obtain ⟨hstopped, hunused⟩ := h.idle w hnew
  rw [hacquire, ok_bind]
  dsimp only
  rw [startWrapper_eq { dc with clientWrappersPool := pool } hstopped hunused, ok_bind]
  dsimp only
  by_cases hdup : dc.clientsMap.any (fun c => c.1 == key) = true
  · rw [if_pos hdup, stopWrapper_eq _ (Function.update_self _ _ _), ok_bind]
    dsimp only
    obtain ⟨-, hheld⟩ := (hstart s).stop rfl
    refine ⟨_, rfl, accounted_of_holding ffHashUint32 h.ring h.factor h.keys hheld (hcap.trans h.capacity) h.count
      h.bound h.heights, ⟨?_, rfl⟩, Or.inl ⟨rfl, rfl⟩⟩
    simp only [connectors, releaseClientWrapper, Function.update_idem, filterMap_update hnew]
    exact List.Perm.refl _
  · rw [if_neg hdup]
    rw [any_key_iff] at hdup
    obtain ⟨ch', hadd, hwf', hfactor', hst'⟩ := addEntry_ring ffHashUint32 h.ring h.factor key w
    rw [hadd, ok_bind]
    refine ⟨_, rfl, accounted_of_holding ffHashUint32 hwf' hfactor' (List.nodup_cons.2 ⟨hdup, h.keys⟩)
      (hstart s) (hcap.trans h.capacity) ?_ ?_ (fun p => ?_), ⟨?_, rfl⟩, Or.inr ⟨w, rfl, hst'⟩⟩
    · simp only [List.length_cons, h.count]
    · have := h.bound
      dsimp only
      omega
    · dsimp only
      rw [hst' p, List.length_append, List.length_replicate, h.heights p, List.map_cons, List.sum_cons]
    · simp only [connectors, List.filterMap_cons, Function.update_self, filterMap_update hnew]
      exact List.perm_middle

/-- The registry around a key that is registered. -/
theorem clientsMap_split {l : List (UInt64 × Nat)} (hnd : (l.map Prod.fst).Nodup) {key : UInt64} {c : UInt64 × Nat}
    (hf : l.find? (fun c => c.1 == key) = some c) :
    ∃ newer older, l = newer ++ (key, c.2) :: older ∧ l.filter (fun c => c.1 != key) = newer ++ older := by
  obtain ⟨hk, newer, older, rfl, hnew⟩ := List.find?_eq_some_iff_append.1 hf
  obtain ⟨k, w⟩ := c
  have hk : k = key := by simpa using hk
  subst hk
  refine ⟨newer, older, rfl, ?_⟩
  rw [List.map_append, List.map_cons, List.nodup_append, List.nodup_cons] at hnd
  have h1 : newer.filter (fun c => c.1 != k) = newer :=
    List.filter_eq_self.2 (fun a ha => by simpa using hnew a ha)
  have h2 : older.filter (fun c => c.1 != k) = older := List.filter_eq_self.2 (fun a ha => by
    have hne : a.1 ≠ k := by
      rintro rfl
      exact hnd.2.1.1 (List.mem_map.2 ⟨a, ha, rfl⟩)
    simpa using hne)
  rw [List.filter_append, List.filter_cons_of_neg (by simp), h1, h2]

/-- The registered key is taken off the ring: each point loses as many entries as the key put there. -/
theorem Accounted.removeEntry {dc : DistributedClient} (h : dc.Accounted ffHashUint32) {newer older : List (UInt64 × Nat)}
    {key : UInt64} {w : Nat} (hsplit : dc.clientsMap = newer ++ (key, w) :: older) :
    ∃ ch', dc.consistentHash.removeEntry ffHashUint32 (getU64Hash ffHashUint32 key) = .ok ch' ∧ ch'.WellFormed ∧
      ch'.uniformFactor = uniformFactor ∧
      (∀ p : UInt32, atKey Entry.point p.toNat ch'.entries =
        (atKey Entry.point p.toNat dc.consistentHash.entries).drop ((ringPoints ffHashUint32 key).count p)) ∧
      ∀ p : UInt32, (atKey Entry.point p.toNat ch'.entries).length =
        ((newer ++ older).map (fun c => (ringPoints ffHashUint32 c.1).count p)).sum := by
  have hheights : ∀ p : UInt32, (atKey Entry.point p.toNat dc.consistentHash.entries).length =
      (ringPoints ffHashUint32 key).count p +
        ((newer ++ older).map (fun c => (ringPoints ffHashUint32 c.1).count p)).sum := fun p => by
    rw [h.heights p, hsplit]
    simp only [List.map_append, List.map_cons, List.sum_append, List.sum_cons]
    omega
  obtain ⟨ch', hremove, hwf', hfactor', hdrop⟩ := removeEntry_ring ffHashUint32 h.ring h.factor key
    (fun p => by rw [hheights p]; omega)
  refine ⟨ch', hremove, hwf', hfactor', hdrop, fun p => ?_⟩
  rw [hdrop p, List.length_drop, hheights p]
  omega

/-- **What removing a client does**: nothing for an unknown key; else the client leaves the registry and each point of
the ring loses its first entries, as many as the key put there. -/
theorem Accounted.removeClient {dc : DistributedClient} (h : dc.Accounted ffHashUint32) (key : UInt64) :
    ∃ dc', dc.removeClient ffHashUint32 key = .ok dc' ∧ dc'.Accounted ffHashUint32 ∧ dc.Keeps [] dc' ∧
      (dc' = dc ∨ ∃ newer w older, dc.clientsMap = newer ++ (key, w) :: older ∧ dc'.clientsMap = newer ++ older ∧
        ∀ p : UInt32, atKey Entry.point p.toNat dc'.consistentHash.entries =
          (atKey Entry.point p.toNat dc.consistentHash.entries).drop ((ringPoints ffHashUint32 key).count p)) := by
  unfold DistributedClient.removeClient
  cases hf : dc.clientsMap.find? (fun c => c.1 == key) with
  | none => exact ⟨dc, rfl, h, ⟨List.Perm.refl _, rfl⟩, Or.inl rfl⟩
  | some c =>
    obtain ⟨newer, older, hsplit, hfilter⟩ := clientsMap_split h.keys hf
    obtain ⟨k, w⟩ := c
    dsimp only at hsplit hfilter ⊢
    obtain ⟨ch', hremove, hwf', hfactor', hdrop, hheights⟩ := h.removeEntry ffHashUint32 hsplit
    have hheld : SharedClients.Holding (w :: (newer ++ older).map Prod.snd) dc.clientWrappersPool dc.wrappers [] := by
      apply (h.holding ffHashUint32).perm
      rw [hsplit, List.map_append, List.map_append, List.map_cons]
      exact List.perm_middle
    obtain ⟨⟨s, hs⟩, hstopped⟩ := hheld.stop rfl
    have hkeys := h.keys
    have hcount := h.count
    have hbound := h.bound
    rw [hsplit, List.map_append, List.map_cons] at hkeys
    rw [hsplit, List.length_append, List.length_cons] at hcount
    rw [ffAssert_of (by omega), ok_bind, ffAssert_of hbound, ok_bind, hremove, ok_bind, hfilter,
      stopWrapper_eq { dc with clientsMap := newer ++ older, consistentHash := ch' } hs, ok_bind]
    refine ⟨_, rfl, accounted_of_holding ffHashUint32 hwf' hfactor' ?_ hstopped h.capacity ?_ ?_ hheights, ⟨?_, rfl⟩,
      Or.inr ⟨newer, w, older, hsplit, rfl, hdrop⟩⟩
    · dsimp only [releaseClientWrapper]
      rw [List.map_append]
      exact hkeys.sublist ((List.sublist_cons_self _ _).append_left _)
    · dsimp only [releaseClientWrapper]
      rw [List.length_append]
      omega
    · dsimp only [releaseClientWrapper]
      omega
    · have hw : w ∉ (newer ++ older).map Prod.snd := (List.nodup_cons.1 hheld.nodup).1
      simp only [connectors, releaseClientWrapper, hsplit, filterMap_update hw, List.filterMap_append,
        List.filterMap_cons, hs, List.nil_append]
      rw [List.cons_append, ← List.append_assoc, ← List.append_assoc]
      exact List.perm_middle.symm

/-- **Taking down wrappers one by one** stops each and returns it to the pool. -/
theorem foldlM_removeClientWrapperEntry : ∀ (ws : List Nat) (dc : DistributedClient),
    SharedClients.Holding ws dc.clientWrappersPool dc.wrappers [] → dc.currentClientsCnt = ws.length →
    dc.currentClientsCnt ≤ dc.maxClientsCnt →
    ∃ pool wrappers deleted, ws.foldlM removeClientWrapperEntry dc =
        .ok { dc with clientWrappersPool := pool, wrappers := wrappers, currentClientsCnt := 0,
                      deletedConnectors := deleted } ∧
      SharedClients.Holding [] pool wrappers [] ∧ pool.capacity = dc.clientWrappersPool.capacity ∧
      deleted.Perm (dc.deletedConnectors ++ ws.filterMap (fun w => (dc.wrappers w).streamConnector))
  | [], dc, hheld, hcnt, _ => by
    refine ⟨dc.clientWrappersPool, dc.wrappers, dc.deletedConnectors, ?_, hheld, rfl, ?_⟩
    · rw [← List.length_nil, ← hcnt]
      rfl
    · rw [List.filterMap_nil, List.append_nil]
  | w :: ws, dc, hheld, hcnt, hle => by
    rw [List.length_cons] at hcnt
    obtain ⟨⟨s, hs⟩, hstopped⟩ := hheld.stop rfl
    let dc₁ : DistributedClient :=
      { dc with wrappers := Function.update dc.wrappers w ⟨none, true, 0⟩,
                deletedConnectors := s :: dc.deletedConnectors,
                clientWrappersPool := dc.clientWrappersPool.release w,
                currentClientsCnt := dc.currentClientsCnt - 1 }
    have hstep : dc.removeClientWrapperEntry w = .ok dc₁ := by
      rw [removeClientWrapperEntry, ffAssert_of (by omega), ok_bind, ffAssert_of hle, ok_bind, stopWrapper_eq _ hs]
      rfl
    obtain ⟨pool, wrappers, deleted, hfold, hrest, hcap, hperm⟩ := foldlM_removeClientWrapperEntry ws dc₁ hstopped
      (show dc.currentClientsCnt - 1 = _ by omega) (show dc.currentClientsCnt - 1 ≤ dc.maxClientsCnt by omega)
    refine ⟨pool, wrappers, deleted, by rw [List.foldlM_cons, hstep, ok_bind, hfold], hrest, hcap, hperm.trans ?_⟩
    have hsame : ws.filterMap (fun n => (dc₁.wrappers n).streamConnector)
        = ws.filterMap (fun n => (dc.wrappers n).streamConnector) := by
      apply List.filterMap_congr
      intro n hn
      have hne : n ≠ w := by
        rintro rfl
        exact (List.nodup_cons.1 hheld.nodup).1 hn
      simp only [dc₁, Function.update_of_ne hne]
    rw [hsame, List.filterMap_cons, hs]
    exact List.perm_middle.symm

/-- **Removing all clients empties both indexes.** -/
theorem Accounted.removeAllClients {dc : DistributedClient} (h : dc.Accounted ffHashUint32) :
    ∃ dc', dc.removeAllClients = .ok dc' ∧ dc'.Accounted ffHashUint32 ∧ dc.Keeps [] dc' ∧ dc'.clientsMap = [] ∧
      dc'.consistentHash.entries = [] := by
  obtain ⟨ch', hch', hwf', huf', -, hent⟩ := h.ring.removeAllEntries
  obtain ⟨pool, wrappers, deleted, hfold, hrest, hcap, hperm⟩ := foldlM_removeClientWrapperEntry
    (dc.clientsMap.map Prod.snd) { dc with consistentHash := ch', clientsMap := [] } (h.holding ffHashUint32)
    (by rw [List.length_map]; exact h.count) h.bound
  unfold DistributedClient.removeAllClients
  rw [hch', ok_bind]
  dsimp only
  rw [hfold, ok_bind, ffAssert_of rfl, ok_bind]
  refine ⟨_, rfl, accounted_of_holding ffHashUint32 hwf' (huf'.trans h.factor) List.nodup_nil hrest
    (hcap.trans h.capacity) rfl (Nat.zero_le _) (fun p => ?_), ⟨?_, rfl⟩, rfl, hent⟩
  · dsimp only
    rw [hent]
    rfl
  · simp only [connectors, List.filterMap_nil, List.append_nil, List.nil_append]
    rw [List.filterMap_map] at hperm
    exact hperm

/-! ## The ring and the registry -/

/-- **Ring and registry agree**: the ring's entries are, as a multiset, one at each ring point of each registered
client's own key, for that client. -/
def RingMatchesRegistry (dc : DistributedClient) : Prop :=
  (dc.consistentHash.entries.map (fun e => (e.key, e.value))).Perm
    (dc.clientsMap.flatMap (fun c => (ringPoints ffHashUint32 c.1).map (fun p => (p, c.2))))

/-- Every try to acquire a client that hands one out hands out a registered client that is not stopped. -/
def HandsOutRegistered (dc : DistributedClient) : Prop :=
  ∀ requestHashValue w dc', dc.tryAcquireClient ffHashUint32 requestHashValue = .ok (some w, dc') →
    w ∈ dc.clientsMap.map Prod.snd ∧ (dc.wrappers w).streamConnector ≠ none

/-- The entries at each point are stacked in the order of registration, the latest client's first. -/
def Stacked (dc : DistributedClient) : Prop :=
  ∀ p : UInt32, atKey Entry.point p.toNat dc.consistentHash.entries =
    dc.clientsMap.flatMap (fun c => List.replicate ((ringPoints ffHashUint32 c.1).count p) ⟨p, c.2⟩)

theorem count_entries {l : List (Entry Nat)} (p : UInt32) (w : Nat) :
    (l.map (fun e => (e.key, e.value))).count (p, w) = (atKey Entry.point p.toNat l).countP (fun e => e.value == w) := by
  rw [List.count_eq_countP, List.countP_map, atKey, List.countP_filter]
  refine List.countP_congr (fun e _ => ?_)
  simp only [Function.comp_apply, beq_iff_eq, Prod.mk.injEq, Bool.and_eq_true, decide_eq_true_eq, Entry.point,
    UInt32.toNat_inj]
  exact and_comm

theorem count_map_pair (ps : List UInt32) (p : UInt32) (v w : Nat) :
    (ps.map (fun q => (q, v))).count (p, w) = if v = w then ps.count p else 0 := by
  by_cases hv : v = w
  · subst hv
    rw [if_pos rfl, List.count_eq_countP, List.countP_map, List.count_eq_countP]
    exact List.countP_congr (fun q _ => by simp)
  · rw [if_neg hv, List.count_eq_zero]
    intro hm
    obtain ⟨q, -, hq⟩ := List.mem_map.1 hm
    exact hv (congrArg Prod.snd hq)

theorem Stacked.ringMatches {dc : DistributedClient} (h : dc.Stacked ffHashUint32) :
    dc.RingMatchesRegistry ffHashUint32 := by
  refine List.perm_iff_count.2 (fun ⟨p, w⟩ => ?_)
  rw [count_entries, h p, List.countP_flatMap, List.count_flatMap]
  congr 1
  refine List.map_congr_left (fun c _ => ?_)
  rw [Function.comp_apply, Function.comp_apply, List.countP_replicate, count_map_pair]
  simp only [beq_iff_eq]

theorem Accounted.handsOutRegistered {dc : DistributedClient} (h : dc.Accounted ffHashUint32)
    (hst : dc.Stacked ffHashUint32) : dc.HandsOutRegistered ffHashUint32 := by
  intro hv w dc' ht
  unfold tryAcquireClient at ht
  split at ht
  · cases ht
  rename_i hne
  obtain ⟨w', hget, ht⟩ := bind_eq_ok ht
  obtain ⟨cw, -, ht⟩ := bind_eq_ok ht
  cases ht
  have hpos : dc.consistentHash.entriesCnt > 0 := by
    have hc := h.ring.count
    simp only [isEmpty, beq_iff_eq] at hne
    omega
  obtain ⟨e, he, rfl⟩ := h.ring.mem_of_getEntry ffHashUint32 hpos hget
  have hat : e ∈ atKey Entry.point e.key.toNat dc.consistentHash.entries := List.mem_filter.2 ⟨he, by simp [Entry.point]⟩
  rw [hst e.key] at hat
  obtain ⟨c, hc, hce⟩ := List.mem_flatMap.1 hat
  have hreg : e.value ∈ dc.clientsMap.map Prod.snd :=
    List.mem_map.2 ⟨c, hc, by rw [(List.mem_replicate.1 hce).2]⟩
  obtain ⟨s, hs⟩ := h.started _ hreg
  exact ⟨hreg, by rw [hs]; simp⟩

/-- A removal is undisturbed when no client registered after the removed one shares a ring point with it. -/
def Undisturbed (dc : DistributedClient) : Message → Prop
  | .removeClient key => ∀ newer w older, dc.clientsMap = newer ++ (key, w) :: older →
      ∀ c ∈ newer, List.Disjoint (ringPoints ffHashUint32 key) (ringPoints ffHashUint32 c.1)
  | _ => True

/-- Every message of a run is undisturbed in the state that receives it. -/
def UndisturbedRun (dc : DistributedClient) : List Message → Prop
  | [] => True
  | m :: ms => dc.Undisturbed ffHashUint32 m ∧ ∀ dc', dc.handle ffHashUint32 m = .ok dc' → UndisturbedRun dc' ms

theorem Accounted.handle {dc : DistributedClient} (h : dc.Accounted ffHashUint32) (m : Message) :
    ∃ dc', dc.handle ffHashUint32 m = .ok dc' ∧ dc'.Accounted ffHashUint32 ∧ dc.Keeps m.arrived dc' ∧
      (dc.Stacked ffHashUint32 → dc.Undisturbed ffHashUint32 m → dc'.Stacked ffHashUint32) := by
  cases m with
  | addClient s key =>
    obtain ⟨dc', h1, h2, hkeeps, h3⟩ := h.addClient ffHashUint32 s key
    refine ⟨dc', h1, h2, hkeeps, fun hst _ p => ?_⟩
    rcases h3 with ⟨hm, hr⟩ | ⟨w, hm, hr⟩
    · rw [hm, hr]
      exact hst p
    · rw [hr p, hm, List.flatMap_cons, hst p]
  | removeClient key =>
    obtain ⟨dc', h1, h2, hkeeps, h3⟩ := h.removeClient ffHashUint32 key
    refine ⟨dc', h1, h2, hkeeps, fun hst hund p => ?_⟩
    rcases h3 with rfl | ⟨newer, w, older, hm, hm', hr⟩
    · exact hst p
    · rw [hr p, hm', hst p, hm]
      exact drop_stack (ringPoints ffHashUint32) p (hund newer w older hm)
  | removeAllClients =>
    obtain ⟨dc', h1, h2, hkeeps, h3, h4⟩ := h.removeAllClients ffHashUint32
    refine ⟨dc', h1, h2, hkeeps, fun _ _ p => ?_⟩
    rw [h3, h4]
    rfl

theorem Accounted.run : ∀ (ms : List Message) {dc : DistributedClient}, dc.Accounted ffHashUint32 →
    dc.Stacked ffHashUint32 → dc.UndisturbedRun ffHashUint32 ms →
    ∃ dc', ms.foldlM (DistributedClient.handle ffHashUint32) dc = .ok dc' ∧ dc'.Accounted ffHashUint32 ∧
      dc'.Stacked ffHashUint32
  | [], dc, h, hst, _ => ⟨dc, rfl, h, hst⟩
  | m :: ms, dc, h, hst, hrun => by
    obtain ⟨dc₁, h1, h2, -, h3⟩ := h.handle ffHashUint32 m
    obtain ⟨dc₂, h4, h5, h6⟩ := Accounted.run ms h2 (h3 hst hrun.1) (hrun.2 dc₁ h1)
    exact ⟨dc₂, by rw [List.foldlM_cons, h1, ok_bind, h4], h5, h6⟩

/-- **After every run of undisturbed messages, ring and registry agree**, and a client that is handed out is registered
and not stopped. -/
theorem ringAgrees_of_undisturbed (order : Nat) (dc₀ : DistributedClient) (hcreate : create order = .ok dc₀)
    (ms : List Message) (hrun : dc₀.UndisturbedRun ffHashUint32 ms) :
    ∃ dc, ms.foldlM (handle ffHashUint32) dc₀ = .ok dc ∧ dc.RingMatchesRegistry ffHashUint32 ∧
      dc.HandsOutRegistered ffHashUint32 := by
  obtain ⟨h0, hm, he⟩ := accounted_create ffHashUint32 hcreate
  have hst : dc₀.Stacked ffHashUint32 := fun p => by rw [hm, he]; rfl
  obtain ⟨dc, h1, h2, h3⟩ := h0.run ffHashUint32 ms hst hrun
  exact ⟨dc, h1, h3.ringMatches, h2.handsOutRegistered ffHashUint32 h3⟩

/-- A started distributed client for about one client, at most two. -/
def small : DistributedClient :=
  ⟨[], ⟨List.replicate (2 ^ 7) [], 7, 2 ^ 7, 0⟩, Pool.empty 2, fun _ => ClientWrapper.create, 2, 0, []⟩

/-- The hash that sends everything to the point `0`. -/
def hashZero : UInt32 → List UInt32 → UInt32 := fun _ _ => 0

theorem ringAgrees_add_remove : ∃ dc, [Message.addClient 10 1, .removeClient 1].foldlM (handle hashZero) small = .ok dc ∧
    dc.RingMatchesRegistry hashZero ∧ dc.HandsOutRegistered hashZero := by
  refine ringAgrees_of_undisturbed hashZero 0 small rfl _ ⟨trivial, fun dc' h => ⟨fun newer w older hm => ?_,
    fun _ _ => trivial⟩⟩
  have hmap : (small.handle hashZero (.addClient 10 1)).map (·.clientsMap) = .ok [(1, 0)] := by decide +kernel
  rw [h] at hmap
  have hmap : dc'.clientsMap = [(1, 0)] := Except.ok.inj hmap
  rw [hmap] at hm
  cases newer with
  | nil => simp
  | cons c newer => simp at hm

/-- Two keys with one hash: removing the first takes the second's entries off the ring, which keeps the stopped
client's, and hands that out. -/
theorem not_ringMatches_colliding :
    ∃ dc, [Message.addClient 10 1, .addClient 20 2, .removeClient 1].foldlM (handle hashZero) small = .ok dc ∧
      ¬ dc.RingMatchesRegistry hashZero ∧ dc.consistentHash.getEntry hashZero 5 = .ok 0 ∧
      dc.clientsMap = [(2, 1)] ∧ (dc.wrappers 0).streamConnector = none := by
  have hrun : ([Message.addClient 10 1, .addClient 20 2, .removeClient 1].foldlM (handle hashZero) small).map
      (fun dc => (dc.clientsMap, dc.consistentHash.entries, dc.consistentHash.getEntry hashZero 5,
        (dc.wrappers 0).streamConnector)) = .ok ([(2, 1)], List.replicate 128 ⟨0, 0⟩, .ok 0, none) := by decide +kernel
  cases h : [Message.addClient 10 1, .addClient 20 2, .removeClient 1].foldlM (handle hashZero) small with
  | error e => rw [h] at hrun; cases hrun
  | ok dc =>
    rw [h] at hrun
    have hrun := Except.ok.inj hrun
    simp only [Prod.mk.injEq] at hrun
    obtain ⟨hm, he, hg, hw⟩ := hrun
    refine ⟨dc, rfl, fun hp => ?_, hg, hm, hw⟩
    rw [RingMatchesRegistry, he, hm] at hp
    have hmem := hp.subset (a := (0, 0)) (by simp)
    obtain ⟨c, hc, hcm⟩ := List.mem_flatMap.1 hmem
    rw [List.mem_singleton] at hc
    subst hc
    obtain ⟨p, -, hp⟩ := List.mem_map.1 hcm
    cases hp

end DistributedClient
end Mrpc
