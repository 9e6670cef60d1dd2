import MultiplexingRpc.MrpcClient
import MultiplexingRpc.SharedClients
/-!
# MrpcDistributedClient — the distributed client from its start to its stop (`mrpc_distributed_client.c`)

`SharedClients` from `mrpc_distributed_client_start` to `mrpc_distributed_client_stop` and around again, with the client
inside each wrapper, the controller, the callers that look for a client more than once, and every `ff_assert` where the
source has it, those of the clients and of the ring included.  The registry does what `SharedClients` does, and starts and
stops its clients as they have to be (`receive_lifts`, `finishStop_lifts`).
-/
namespace Mrpc

open ConsistentHash

/-- Where `distributed_client_main_func` stands: `ending`, behind `MRPC_DISTRIBUTED_CLIENT_STOP`. -/
inductive MainDistributed where
  | stopped
  | starting
  | looping
  | ending
  deriving DecidableEq, Repr

/-- `struct mrpc_distributed_client` with its fibers: the registry with the wrappers, where the main fiber blocks and the
cookies, the clients of the wrappers, those who sleep inside `mrpc_distributed_client_acquire_client` with the tries left,
and where the caller of the start and the stop stands. -/
structure MrpcDistributedClient where
  shared : SharedClients
  clients : Nat → MrpcClient
  stopEvent : Bool
  controller : Option Nat
  main : MainDistributed
  acquiring : List (UInt32 × Nat)
  phase : RunPhase

namespace MrpcDistributedClient

def acquireClientMaxTriesCnt : Nat := 3

/-- `mrpc_distributed_client_create`; the wrappers of the pool and their clients are made alike. -/
def create (expectedClientsOrder : Nat) : Except Fault MrpcDistributedClient := do
  let dc ← DistributedClient.create expectedClientsOrder
  let client ← MrpcClient.create
  .ok ⟨.start dc, fun _ => client, false, none, .stopped, [], .stopped⟩

def withDc (x : MrpcDistributedClient) (dc : DistributedClient) : MrpcDistributedClient :=
  { x with shared := { x.shared with dc := dc } }

/-! ## Wrappers -/

/-- `mrpc_distributed_client_wrapper_start`. -/
def startWrapper (x : MrpcDistributedClient) (w streamConnector : Nat) : Except Fault MrpcDistributedClient := do
  let dc ← x.shared.dc.startWrapper w streamConnector
  let client ← (x.clients w).start (some streamConnector)
  .ok { x.withDc dc with clients := Function.update x.clients w client }

/-- `mrpc_distributed_client_wrapper_stop` up to where `mrpc_client_stop` blocks. -/
def beginStop (x : MrpcDistributedClient) (w : Nat) (after : AfterStop) : Except Fault MrpcDistributedClient := do
  let (dc, main) ← SharedClients.beginStop x.shared.dc w after
  let client ← (x.clients w).stop
  match client with
  | none => .error .blocked
  | some client =>
    .ok { x with shared := ⟨dc, main, x.shared.cookies⟩, clients := Function.update x.clients w client }

/-- `mrpc_distributed_client_wrapper_delete`. -/
def deleteClientWrapper (x : MrpcDistributedClient) (w : Nat) : Except Fault Unit := do
  ffAssert ((x.shared.dc.wrappers w).streamConnector = none)
  ffAssert ((x.shared.dc.wrappers w).refCnt = 0)
  let _ ← (x.clients w).delete
  .ok ()

/-! ## Messages -/

section Messages

variable (ffHashUint32 : UInt32 → List UInt32 → UInt32)

/-- The wrappers that `ff_dictionary_remove_all_entries` has still to remove. -/
def removeNext (x : MrpcDistributedClient) : List Nat → Except Fault MrpcDistributedClient
  | [] => do
    ffAssert (x.shared.dc.currentClientsCnt = 0)
    .ok x
  | w :: ws => do
    ffAssert (x.shared.dc.currentClientsCnt > 0)
    ffAssert (x.shared.dc.currentClientsCnt ≤ x.shared.dc.maxClientsCnt)
    x.beginStop w (.removedAll ws)

/-- `add_client` up to where it blocks. -/
def addClient (x : MrpcDistributedClient) (streamConnector : Nat) (key : UInt64) :
    Except Fault MrpcDistributedClient := do
  ffAssert (x.controller ≠ none)
  ffAssert (x.shared.dc.currentClientsCnt ≤ x.shared.dc.maxClientsCnt)
  if x.shared.dc.currentClientsCnt = x.shared.dc.maxClientsCnt then
    .ok (x.withDc { x.shared.dc with deletedConnectors := streamConnector :: x.shared.dc.deletedConnectors })
  else do
    let (w, dc) ← x.shared.dc.acquireClientWrapper
    let x ← (x.withDc dc).startWrapper w streamConnector
    if x.shared.dc.clientsMap.any (fun c => c.1 == key) then
      x.beginStop w .rejected
    else do
      let consistentHash ← x.shared.dc.consistentHash.addEntry ffHashUint32 (DistributedClient.getU64Hash ffHashUint32 key) w
      .ok (x.withDc { x.shared.dc with
        clientsMap := (key, w) :: x.shared.dc.clientsMap
        consistentHash := consistentHash
        currentClientsCnt := x.shared.dc.currentClientsCnt + 1 })

/-- `remove_client` up to where it blocks. -/
def removeClient (x : MrpcDistributedClient) (key : UInt64) : Except Fault MrpcDistributedClient := do
  ffAssert (x.controller ≠ none)
  match x.shared.dc.clientsMap.find? (fun c => c.1 == key) with
  | none => .ok x
  | some (_, w) => do
    let dc := { x.shared.dc with clientsMap := x.shared.dc.clientsMap.filter (fun c => c.1 != key) }
    ffAssert (dc.currentClientsCnt > 0)
    ffAssert (dc.currentClientsCnt ≤ dc.maxClientsCnt)
    let consistentHash ← dc.consistentHash.removeEntry ffHashUint32 (DistributedClient.getU64Hash ffHashUint32 key)
    (x.withDc { dc with consistentHash := consistentHash }).beginStop w .removed

/-- `remove_all_clients` up to where it blocks. -/
def removeAllClients (x : MrpcDistributedClient) : Except Fault MrpcDistributedClient := do
  ffAssert (x.controller ≠ none)
  let consistentHash ← x.shared.dc.consistentHash.removeAllEntries
  (x.withDc { x.shared.dc with consistentHash := consistentHash, clientsMap := [] }).removeNext
    (x.shared.dc.clientsMap.map Prod.snd)

/-- One turn of `distributed_client_main_func` up to where it blocks. -/
def receive (x : MrpcDistributedClient) : Message → Except Fault MrpcDistributedClient
  | .addClient streamConnector key => x.addClient ffHashUint32 streamConnector key
  | .removeClient key => x.removeClient ffHashUint32 key
  | .removeAllClients => x.removeAllClients

/-- The rest of `mrpc_distributed_client_wrapper_stop` behind its wait, and what the main fiber does next. -/
def finishStop (x : MrpcDistributedClient) (w : Nat) (after : AfterStop) : Except Fault MrpcDistributedClient := do
  let dc ← x.shared.dc.stopWrapper w
  let dc := dc.releaseClientWrapper w
  let x := { x with shared := ⟨dc, .receiving, x.shared.cookies⟩ }
  match after with
  | .rejected => .ok x
  | .removed => .ok (x.withDc { dc with currentClientsCnt := dc.currentClientsCnt - 1 })
  | .removedAll rest => (x.withDc { dc with currentClientsCnt := dc.currentClientsCnt - 1 }).removeNext rest

/-- The end of `distributed_client_main_func`, once all clients are removed. -/
def settle (x : MrpcDistributedClient) : MrpcDistributedClient :=
  if x.main = .ending ∧ x.shared.main = .receiving then { x with main := .stopped, stopEvent := true } else x

/-! ## Start, stop and requests -/

/-- `mrpc_distributed_client_start`. -/
def start (x : MrpcDistributedClient) (controller : Option Nat) : Except Fault MrpcDistributedClient := do
  ffAssert (controller ≠ none)
  ffAssert (x.controller = none)
  ffAssert (x.shared.dc.currentClientsCnt = 0)
  .ok { x with controller := controller, main := .starting, phase := .running }

/-- `distributed_client_main_func` up to its loop. -/
def mainStart (x : MrpcDistributedClient) : Except Fault MrpcDistributedClient := do
  ffAssert (x.controller ≠ none)
  .ok { x with main := .looping }

/-- `mrpc_distributed_client_stop` up to its wait. -/
def stop (x : MrpcDistributedClient) : Except Fault MrpcDistributedClient := do
  ffAssert (x.controller ≠ none)
  .ok { x with phase := .stopping }

/-- The end of `mrpc_distributed_client_stop`. -/
def stopReturn (x : MrpcDistributedClient) : Except Fault MrpcDistributedClient := do
  ffAssert (x.shared.dc.currentClientsCnt = 0)
  .ok { x with stopEvent := false, controller := none, phase := .stopped }

/-- `mrpc_distributed_client_delete`, with the wrappers of its pool and the ring. -/
def delete (x : MrpcDistributedClient) : Except Fault Unit := do
  ffAssert (x.controller = none)
  ffAssert (x.shared.dc.currentClientsCnt = 0)
  x.shared.dc.clientWrappersPool.free.forM x.deleteClientWrapper
  ffAssert (x.shared.dc.consistentHash.entriesCnt = 0)
  .ok ()

/-- A turn of the loop of `mrpc_distributed_client_acquire_client` with `triesCnt` tries left. -/
def acquireClient (x : MrpcDistributedClient) (requestHashValue : UInt32) (triesCnt : Nat) :
    Except Fault MrpcDistributedClient := do
  let (cookie, dc) ← x.shared.dc.tryAcquireClient ffHashUint32 requestHashValue
  match cookie with
  | some w => .ok { x with shared := ⟨dc, x.shared.main, w :: x.shared.cookies⟩ }
  | none =>
    .ok (if triesCnt - 1 = 0 then x else { x with acquiring := (requestHashValue, triesCnt - 1) :: x.acquiring })

/-- What may happen next.  `message m`, `messageStop`: the controller's next message; `clientStopped`, `eventWaited`: the
two waits in the stop of a wrapper end; `retry`: somebody who slept with so many tries left goes on; `client n c`: a call
or a fiber's step of the client of the wrapper `n`. -/
inductive Call where
  | start (controller : Option Nat)
  | mainStart
  | message (m : Message)
  | messageStop
  | clientStopped
  | eventWaited
  | acquire (requestHashValue : UInt32)
  | retry (requestHashValue : UInt32) (triesCnt : Nat)
  | release (cookie : Nat)
  | client (n : Nat) (c : MrpcClient.Call)
  | stop
  | stopReturn
  | delete
  deriving DecidableEq, Repr

/-- The wrapper's own calls of its client are not for others. -/
def Others : MrpcClient.Call → Bool
  | .start _ | .stop | .stopReturn | .delete => false
  | _ => true

/-- The distributed client with its assertions; none where a call cannot come next. -/
def call (x : MrpcDistributedClient) : Call → Except Fault (Option MrpcDistributedClient)
  | .start controller => some <$> x.start controller
  | .mainStart => if x.main = .starting then some <$> x.mainStart else .ok none
  | .message m =>
    if x.main = .looping ∧ x.shared.main = .receiving then some <$> x.receive ffHashUint32 m else .ok none
  | .messageStop =>
    if x.main = .looping ∧ x.shared.main = .receiving then do
      let x ← x.removeAllClients
      .ok (some { x with main := .ending }.settle)
    else .ok none
  | .clientStopped =>
    match x.shared.main with
    | .stoppingClient w after => do
      let returned ← (x.clients w).call .stopReturn
      .ok (returned.map fun client => { x with
        shared := { x.shared with main := .waitingEvent w after }
        clients := Function.update x.clients w client })
    | _ => .ok none
  | .eventWaited =>
    match x.shared.main with
    | .waitingEvent w after =>
      if (x.shared.dc.wrappers w).stopEvent then do
        let x ← x.finishStop w after
        .ok (some x.settle)
      else .ok none
    | _ => .ok none
  | .acquire requestHashValue => do
    ffAssert (x.controller ≠ none)
    some <$> x.acquireClient ffHashUint32 requestHashValue acquireClientMaxTriesCnt
  | .retry requestHashValue triesCnt =>
    if (requestHashValue, triesCnt) ∈ x.acquiring then
      some <$> { x with acquiring := x.acquiring.erase (requestHashValue, triesCnt) }.acquireClient ffHashUint32
        requestHashValue triesCnt
    else .ok none
  | .release cookie => do
    let shared ← x.shared.step ffHashUint32 (.release cookie)
    .ok (some { x with shared := shared })
  | .client n c =>
    if Others c = true then do
      let moved ← (x.clients n).call c
      .ok (moved.map fun client => { x with clients := Function.update x.clients n client })
    else .ok none
  | .stop => some <$> x.stop
  | .stopReturn => if x.phase = .stopping ∧ x.stopEvent then some <$> x.stopReturn else .ok none
  | .delete => do
    x.delete
    .ok none

/-- The step of a run. -/
def step (x : MrpcDistributedClient) (c : Call) : Option MrpcDistributedClient :=
  match x.call ffHashUint32 c with
  | .ok y => y
  | .error _ => none

/-- The step of the registry leaves the ring points of its clients apart, and nobody waits for a request stream of the
client that it tells to stop. -/
def Admits (x : MrpcDistributedClient) (a : SharedAct) : Prop :=
  ∀ s, x.shared.step ffHashUint32 a = .ok s → SharedClients.Separate ffHashUint32 s.dc.clientsMap ∧
    ∀ w after, s.main = .stoppingClient w after → (x.clients w).session.Disciplined .stopAsync

/-- What the users, the controller and the hash keep to: the distributed client is started with a controller, when it is
not running, stopped when it is, and deleted when it is not and nobody is inside; a client is asked for while it runs, and
only the cookies handed out come back; ring points do not coincide, and a lookup does not end in the bucket where it
began. -/
def Disciplined (x : MrpcDistributedClient) : Call → Prop
  | .start controller => x.phase = .stopped ∧ controller ≠ none
  | .message m => x.Admits ffHashUint32 (.message m)
  | .messageStop => x.Admits ffHashUint32 (.message .removeAllClients)
  | .eventWaited => x.Admits ffHashUint32 .eventWaited
  | .acquire requestHashValue => x.phase ≠ .stopped ∧
      (x.shared.dc.consistentHash.isEmpty = false → x.shared.dc.consistentHash.outsideStart ffHashUint32 requestHashValue)
  | .retry requestHashValue _ =>
      x.shared.dc.consistentHash.isEmpty = false → x.shared.dc.consistentHash.outsideStart ffHashUint32 requestHashValue
  | .release cookie => cookie ∈ x.shared.cookies
  | .client n c => (x.clients n).Disciplined c
  | .stop => x.phase = .running
  | .delete => x.phase = .stopped ∧ x.acquiring = [] ∧ ∀ n, (x.clients n).sleeping = []
  | _ => True

end Messages
end MrpcDistributedClient

/-! ## Lookups -/

/-- **A lookup that does not end in the bucket where it began finds something.** -/
theorem ConsistentHash.WellFormed.getEntry_of_outsideStart {ffHashUint32 : UInt32 → List UInt32 → UInt32}
    {ch : ConsistentHash Nat} (h : ch.WellFormed) {key : UInt32} (hkey : ch.outsideStart ffHashUint32 key) :
    ∃ w, ch.getEntry ffHashUint32 key = .ok w := by
  obtain ⟨e, he, hplace⟩ := hkey
  have hpos : ch.entriesCnt > 0 := by
    rw [h.count]
    exact_mod_cast List.length_pos_of_mem he
  rw [h.getEntry_eq ffHashUint32 hpos key]
  cases hfind : ch.entries.find? (fun e => decide ((ffHashUint32 0 [key]).toNat ≤ e.point)) with
  | some e => exact ⟨_, rfl⟩
  | none =>
    have hlt : e.point < (ffHashUint32 0 [key]).toNat := by simpa using List.find?_eq_none.1 hfind e he
    have hne := hplace.resolve_left (not_le.2 hlt)
    obtain ⟨pre, b, post, hb, hpre, -⟩ := h.bucket_eq (ffHashUint32 0 [key])
    obtain ⟨-, hin, hpost⟩ := h.index_of_mem hb
    -- the entry lies before the bucket of the key
    have hmem : e ∈ pre.flatten := by
      have hle := Nat.div_le_div_right (c := 2 ^ (32 - ch.order)) hlt.le
      rw [← Nat.shiftRight_eq_div_pow, ← Nat.shiftRight_eq_div_pow, ← hpre] at hle
      rw [entries_split ch hb] at he
      rcases List.mem_append.1 he with he | he
      · exact he
      rcases List.mem_append.1 he with he | he
      · exact absurd ((hin e he).trans hpre) hne
      · have := hpost e he
        omega
    dsimp only
    rw [← hpre, hb, List.take_left]
    cases hhead : pre.flatten.head? with
    | some e => exact ⟨_, rfl⟩
    | none =>
      rw [List.head?_eq_none_iff.1 hhead] at hmem
      cases hmem

/-! ## Connectors -/

/-- One more value, at a place that had none. -/
theorem filterMap_perm_cons {f g : Nat → Option Nat} {w c : Nat} (hf : f w = none) (hg : g w = some c)
    (hother : ∀ n, n ≠ w → g n = f n) : ∀ {l : List Nat}, l.Nodup → w ∈ l → (l.filterMap g).Perm (c :: l.filterMap f)
  | [], _, hw => by cases hw
  | n :: l, hnodup, hw => by
    obtain ⟨hn, hnodup⟩ := List.nodup_cons.1 hnodup
    by_cases hnw : n = w
    · subst hnw
      have hrest : l.filterMap g = l.filterMap f :=
        List.filterMap_congr fun m hm => hother m fun hmn => hn (hmn ▸ hm)
      rw [List.filterMap_cons_some hg, List.filterMap_cons_none hf, hrest]
    · have hrest := filterMap_perm_cons hf hg hother hnodup ((List.mem_cons.1 hw).resolve_left fun h => hnw h.symm)
      cases hfn : f n with
      | none =>
        rw [List.filterMap_cons_none ((hother n hnw).trans hfn), List.filterMap_cons_none hfn]
        exact hrest
      | some d =>
        rw [List.filterMap_cons_some ((hother n hnw).trans hfn), List.filterMap_cons_some hfn]
        exact (hrest.cons d).trans (List.Perm.swap c d _)

/-- **A stop that ends** gives the connector of a wrapper up, and changes nothing else. -/
theorem ClientWrapper.of_stop {w w' : ClientWrapper} {c : Nat} (h : w.stop = .ok (c, w')) :
    w.streamConnector = some c ∧ w' = { w with streamConnector := none } := by
  unfold ClientWrapper.stop at h
  split at h
  · cases h
  · rename_i d hd
    cases he : w.stopEvent with
    | false =>
      rw [he] at h
      cases h
    | true =>
      rw [he] at h
      obtain ⟨_, -, h⟩ := bind_eq_ok h
      cases h
      exact ⟨hd, by rw [← he]⟩

namespace DistributedClient

/-- The connectors of the wrappers that were made. -/
def held (dc : DistributedClient) : List Nat :=
  (List.range dc.clientWrappersPool.created).filterMap fun n => (dc.wrappers n).streamConnector

/-- The connectors that were handed over: those deleted, and those in use. -/
def handed (dc : DistributedClient) : List Nat := dc.deletedConnectors ++ dc.held

variable {dc dc' : DistributedClient} {w c : Nat}

theorem startWrapper_handed (hw : w < dc.clientWrappersPool.created) (h : dc.startWrapper w c = .ok dc') :
    dc'.handed.Perm (c :: dc.handed) := by
  obtain ⟨cw, hstart, h⟩ := bind_eq_ok h
  cases h
  obtain ⟨_, hnone, hstart⟩ := bind_eq_ok hstart
  obtain ⟨_, -, hstart⟩ := bind_eq_ok hstart
  cases hstart
  refine (List.Perm.append_left _ (filterMap_perm_cons (c := c) (of_ffAssert hnone) ?_ ?_ List.nodup_range
    (List.mem_range.2 hw))).trans List.perm_middle
  · simp
  · intro n hn
    simp [hn]

theorem stopWrapper_handed (hw : w < dc.clientWrappersPool.created) (h : dc.stopWrapper w = .ok dc') :
    dc'.handed.Perm dc.handed := by
  obtain ⟨⟨c, cw⟩, hstop, h⟩ := bind_eq_ok h
  cases h
  obtain ⟨hconnector, rfl⟩ := ClientWrapper.of_stop hstop
  refine List.perm_middle.symm.trans (List.Perm.append_left _ (List.Perm.symm ?_))
  refine filterMap_perm_cons ?_ hconnector (fun n hn => ?_) List.nodup_range (List.mem_range.2 hw)
  · simp
  · simp [hn]

theorem acquireClientWrapper_handed (hpool : dc.clientWrappersPool.WellFormed id)
    (hnew : (dc.wrappers dc.clientWrappersPool.created).streamConnector = none)
    (h : dc.acquireClientWrapper = .ok (w, dc')) :
    w < dc'.clientWrappersPool.created ∧ dc'.handed = dc.handed := by
  unfold acquireClientWrapper at h
  split at h
  · cases h
  · rename_i v pool hacquire
    cases h
    rcases Pool.acquire_cases hacquire with ⟨rest, hfree, rfl⟩ | ⟨-, -, rfl, rfl⟩
    · refine ⟨hpool.created w ?_, rfl⟩
      rw [hfree]
      exact List.mem_cons_self
    · refine ⟨Nat.lt_succ_self _, ?_⟩
      simp only [handed, held]
      simp [List.range_succ, List.filterMap_append, hnew]

/-- Users come and go; the connector of a wrapper stays. -/
theorem handed_update {cw : ClientWrapper} (h : cw.streamConnector = (dc.wrappers w).streamConnector) :
    { dc with wrappers := Function.update dc.wrappers w cw }.handed = dc.handed := by
  have hheld : { dc with wrappers := Function.update dc.wrappers w cw }.held = dc.held := by
    refine List.filterMap_congr fun n _ => ?_
    dsimp only
    by_cases hn : n = w
    · subst hn
      rw [Function.update_self, h]
    · rw [Function.update_of_ne hn]
  rw [handed, hheld]
  rfl

/-- A new distributed client has no clients and got no connectors. -/
theorem create_of_le {order : Nat} (horder : order + 7 ≤ 20) :
    ∃ dc, create order = .ok dc ∧ dc.clientsMap = [] ∧ dc.handed = [] := by
  rw [create, ffAssert_of horder, ok_bind, ConsistentHash.create, ffAssert_of horder, ok_bind,
    ffAssert_of (by decide), ok_bind, ffAssert_of (by decide), ok_bind]
  exact ⟨_, rfl, rfl, rfl⟩

end DistributedClient

namespace SharedClients

open DistributedClient

variable {ffHashUint32 : UInt32 → List UInt32 → UInt32} {s s' : SharedClients} {dc dc' : DistributedClient}
  {main : MainFiber}

theorem beginStop_eq_ok {w : Nat} {after : AfterStop} (h : beginStop dc w after = .ok (dc', main)) :
    dc' = dc ∧ main = .stoppingClient w after ∧ (dc.wrappers w).streamConnector ≠ none := by
  obtain ⟨_, hconnector, h⟩ := bind_eq_ok h
  cases h
  exact ⟨rfl, rfl, of_ffAssert hconnector⟩

theorem removeNext_eq_ok {ws : List Nat} (h : removeNext dc ws = .ok (dc', main)) : dc' = dc := by
  cases ws with
  | nil =>
    obtain ⟨_, -, h⟩ := bind_eq_ok h
    cases h
    rfl
  | cons w ws =>
    obtain ⟨_, -, h⟩ := bind_eq_ok h
    obtain ⟨_, -, h⟩ := bind_eq_ok h
    exact (beginStop_eq_ok h).1

theorem Inv.addClient_handed (h : s.Inv ffHashUint32) {streamConnector : Nat} {key : UInt64}
    (hadd : SharedClients.addClient ffHashUint32 s.dc streamConnector key = .ok (dc', main)) :
    dc'.handed.Perm (streamConnector :: s.dc.handed) := by
  have hnew : (s.dc.wrappers s.dc.clientWrappersPool.created).streamConnector = none := by
    refine (h.holding.idle _ fun hmem => ?_).1
    exact absurd ((h.holding.inUse _).2 hmem).1 (Nat.lt_irrefl _)
  unfold SharedClients.addClient at hadd
  obtain ⟨_, -, hadd⟩ := bind_eq_ok hadd
  split at hadd
  · cases hadd
    exact List.Perm.refl _
  · obtain ⟨⟨w, dc₁⟩, hacquire, hadd⟩ := bind_eq_ok hadd
    obtain ⟨hw, hsame⟩ := acquireClientWrapper_handed h.holding.wellFormed hnew hacquire
    obtain ⟨dc₂, hstart, hadd⟩ := bind_eq_ok hadd
    have hperm := startWrapper_handed hw hstart
    rw [hsame] at hperm
    split at hadd
    · rw [(beginStop_eq_ok hadd).1]
      exact hperm
    · obtain ⟨ch, -, hadd⟩ := bind_eq_ok hadd
      cases hadd
      exact hperm

theorem removeClient_handed {key : UInt64} (h : removeClient ffHashUint32 dc key = .ok (dc', main)) :
    dc'.handed = dc.handed := by
  unfold removeClient at h
  split at h
  · cases h
    rfl
  · obtain ⟨_, -, h⟩ := bind_eq_ok h
    obtain ⟨_, -, h⟩ := bind_eq_ok h
    obtain ⟨ch, -, h⟩ := bind_eq_ok h
    rw [(beginStop_eq_ok h).1]
    rfl

theorem removeAllClients_handed (h : removeAllClients dc = .ok (dc', main)) : dc'.handed = dc.handed := by
  obtain ⟨ch, -, h⟩ := bind_eq_ok h
  rw [removeNext_eq_ok h]
  rfl

theorem finishStop_handed {w : Nat} {after : AfterStop} (hw : w < dc.clientWrappersPool.created)
    (h : finishStop dc w after = .ok (dc', main)) : dc'.handed.Perm dc.handed := by
  obtain ⟨dc₁, hstop, h⟩ := bind_eq_ok h
  have hperm := stopWrapper_handed hw hstop
  cases after with
  | rejected =>
    cases h
    exact hperm
  | removed =>
    cases h
    exact hperm
  | removedAll rest =>
    rw [removeNext_eq_ok h]
    exact hperm

theorem finishStop_clientsMap {w : Nat} {after : AfterStop} (h : finishStop dc w after = .ok (dc', main)) :
    dc'.clientsMap = dc.clientsMap := by
  obtain ⟨dc₁, hstop, h⟩ := bind_eq_ok h
  obtain ⟨⟨c, cw⟩, -, hstop⟩ := bind_eq_ok hstop
  cases hstop
  cases after with
  | rejected =>
    cases h
    rfl
  | removed =>
    cases h
    rfl
  | removedAll rest =>
    rw [removeNext_eq_ok h]
    rfl

/-- **No connector is lost or deleted twice**: those handed over are the ones before and the ones that arrived. -/
theorem Inv.receive_handed (h : s.Inv ffHashUint32) {m : Message}
    (hreceive : SharedClients.receive ffHashUint32 s.dc m = .ok (dc', main)) :
    dc'.handed.Perm (m.arrived ++ s.dc.handed) := by
  cases m with
  | addClient streamConnector key => exact h.addClient_handed hreceive
  | removeClient key =>
    rw [removeClient_handed hreceive]
    exact List.Perm.refl _
  | removeAllClients =>
    rw [removeAllClients_handed hreceive]
    exact List.Perm.refl _

end SharedClients

/-! ## The clients of the wrappers -/

namespace MrpcClient

variable {x y : MrpcClient}

/-- **Nobody but its wrapper** starts or stops a client. -/
theorem kept_of_others {c : Call} (hc : MrpcDistributedClient.Others c = true) (h : x.call c = .ok (some y)) :
    y.phase = x.phase ∧ y.streamConnector = x.streamConnector := by
  have hprocessor : ∀ {x y : MrpcClient} {c : ClientProcessor.Call}, x.callProcessor c = .ok (some y) →
      y.phase = x.phase ∧ y.streamConnector = x.streamConnector := fun h => by
    obtain ⟨session, -, h⟩ := bind_eq_ok h
    obtain ⟨session, -, rfl⟩ := Option.map_eq_some_iff.1 (Except.ok.inj h)
    exact ⟨rfl, rfl⟩
  have hafter : ∀ x : MrpcClient, x.afterStep.phase = x.phase ∧ x.afterStep.streamConnector = x.streamConnector :=
    fun x => by
      unfold afterStep
      split <;> exact ⟨rfl, rfl⟩
  have hrequest : ∀ {x y : MrpcClient} {triesCnt : Nat} {o : StreamNo}, x.createRequestStream triesCnt o = .ok (some y) →
      y.phase = x.phase ∧ y.streamConnector = x.streamConnector := fun h => by
    obtain ⟨called, hcalled, h⟩ := bind_eq_ok h
    obtain ⟨z, rfl, rfl⟩ := Option.map_eq_some_iff.1 (Except.ok.inj h)
    have hkept := hprocessor hcalled
    split <;> exact hkept
  cases c with
  | start | stop | stopReturn | delete => cases hc
  | mainStart =>
    simp only [call] at h
    split at h
    · cases hconnector : x.streamConnector with
      | none =>
        rw [mainStart, hconnector] at h
        cases h
      | some c =>
        rw [mainStart, ffAssert_of (by simp [hconnector]), ok_bind] at h
        cases h
        exact ⟨rfl, hconnector⟩
    · cases h
  | connected stream =>
    simp only [call] at h
    split at h
    · obtain ⟨processed, hprocessed, h⟩ := bind_eq_ok h
      obtain ⟨z, rfl, rfl⟩ := Option.map_eq_some_iff.1 (Except.ok.inj h)
      obtain ⟨hphase, hconnector⟩ := hafter { z with
        main := .processing, stream := some stream, openedStreams := stream :: z.openedStreams }
      exact ⟨hphase.trans (hprocessor hprocessed).1, hconnector.trans (hprocessor hprocessed).2⟩
    · cases h
  | connectNull =>
    simp only [call] at h
    split at h
    · cases h
      exact ⟨rfl, rfl⟩
    · cases h
  | processor c =>
    simp only [call] at h
    split at h
    · obtain ⟨moved, hmoved, h⟩ := bind_eq_ok h
      obtain ⟨z, rfl, rfl⟩ := Option.map_eq_some_iff.1 (Except.ok.inj h)
      obtain ⟨hphase, hconnector⟩ := hafter z
      exact ⟨hphase.trans (hprocessor hmoved).1, hconnector.trans (hprocessor hmoved).2⟩
    · cases h
  | createRequestStream o => exact hrequest h
  | retry triesCnt o =>
    simp only [call] at h
    split at h
    · have hkept := hrequest h
      exact hkept
    · cases h
  | resetConnection => exact hprocessor h

end MrpcClient

/-- Where the client of a wrapper stands while the main fiber leaves it alone. -/
def ClientWrapper.phase (w : ClientWrapper) : RunPhase := if w.streamConnector = none then .stopped else .running

/-- Where the client of the wrapper `w` of number `n` stands. -/
def MainFiber.clientPhase (n : Nat) (w : ClientWrapper) : MainFiber → RunPhase
  | receiving => w.phase
  | stoppingClient v _ => if n = v then .stopping else w.phase
  | waitingEvent v _ => if n = v then .stopped else w.phase

namespace MrpcDistributedClient

/-- **The clients are where their wrappers have them**, with the connectors of these. -/
structure Clients (wrappers : Nat → ClientWrapper) (main : MainFiber) (clients : Nat → MrpcClient) : Prop where
  sound : ∀ n, (clients n).Sound
  phase : ∀ n, (clients n).phase = main.clientPhase n (wrappers n)
  streamConnector : ∀ n, (clients n).phase ≠ .stopped → (clients n).streamConnector = (wrappers n).streamConnector

theorem Clients.update {wrappers : Nat → ClientWrapper} {main main' : MainFiber} {clients : Nat → MrpcClient}
    (h : Clients wrappers main clients) {w : Nat} {cw : ClientWrapper} {client : MrpcClient} (hsound : client.Sound)
    (hphase : client.phase = main'.clientPhase w cw)
    (hconnector : client.phase ≠ .stopped → client.streamConnector = cw.streamConnector)
    (hothers : ∀ n, n ≠ w → ∀ v, main'.clientPhase n v = main.clientPhase n v) :
    Clients (Function.update wrappers w cw) main' (Function.update clients w client) := by
  constructor
  all_goals
    intro n
    by_cases hn : n = w
  · subst hn
    rw [Function.update_self]
    exact hsound
  · rw [Function.update_of_ne hn]
    exact h.sound n
  · subst hn
    rw [Function.update_self, Function.update_self]
    exact hphase
  · rw [Function.update_of_ne hn, Function.update_of_ne hn, hothers n hn]
    exact h.phase n
  · subst hn
    rw [Function.update_self, Function.update_self]
    exact hconnector
  · rw [Function.update_of_ne hn, Function.update_of_ne hn]
    exact h.streamConnector n

/-- A client moves, its wrapper does not. -/
theorem Clients.move {wrappers : Nat → ClientWrapper} {main main' : MainFiber} {clients : Nat → MrpcClient}
    (h : Clients wrappers main clients) {w : Nat} {client : MrpcClient} (hsound : client.Sound)
    (hphase : client.phase = main'.clientPhase w (wrappers w))
    (hconnector : client.phase ≠ .stopped → client.streamConnector = (wrappers w).streamConnector)
    (hothers : ∀ n, n ≠ w → ∀ v, main'.clientPhase n v = main.clientPhase n v) :
    Clients wrappers main' (Function.update clients w client) := by
  have hnext := h.update hsound hphase hconnector hothers
  rwa [Function.update_eq_self] at hnext

/-- A turn of the main fiber comes out as `r` says, with the clients where that has them. -/
def Lifts (x : MrpcDistributedClient) (result : Except Fault MrpcDistributedClient) (r : DistributedClient × MainFiber) :
    Prop :=
  ∃ clients, result = .ok { x with shared := ⟨r.1, r.2, x.shared.cookies⟩, clients := clients } ∧
    Clients r.1.wrappers r.2 clients

variable {ffHashUint32 : UInt32 → List UInt32 → UInt32} {x y : MrpcDistributedClient} {dc : DistributedClient}
  {main : MainFiber} {w : Nat}

/-- **A wrapper is started**, and its client with it. -/
theorem startWrapper_lifts (h : Clients x.shared.dc.wrappers .receiving x.clients) {streamConnector : Nat}
    (hstart : x.shared.dc.startWrapper w streamConnector = .ok dc) :
    ∃ client, x.startWrapper w streamConnector
        = .ok { x.withDc dc with clients := Function.update x.clients w client } ∧
      client.session = (x.clients w).session ∧
      Clients dc.wrappers .receiving (Function.update x.clients w client) := by
  have hcall := hstart
  obtain ⟨cw, hcw, hstart⟩ := bind_eq_ok hstart
  cases hstart
  obtain ⟨_, hnone, hcw⟩ := bind_eq_ok hcw
  obtain ⟨_, -, hcw⟩ := bind_eq_ok hcw
  cases hcw
  have hphase : (x.clients w).phase = .stopped := (h.phase w).trans (if_pos (of_ffAssert hnone))
  have hgiven : some streamConnector ≠ none := Option.some_ne_none _
  obtain ⟨hrun, hsound⟩ := (h.sound w).start hphase hgiven
  refine ⟨{ x.clients w with streamConnector := some streamConnector, main := .starting, phase := .running }, ?_, rfl,
    h.update hsound rfl (fun _ => rfl) fun _ _ _ => rfl⟩
  rw [startWrapper, hcall, ok_bind, hrun, ok_bind]

/-- **A wrapper is about to stop**: its client is told to. -/
theorem beginStop_lifts (h : Clients x.shared.dc.wrappers .receiving x.clients) {after : AfterStop}
    (hstop : SharedClients.beginStop x.shared.dc w after = .ok (dc, main))
    (hd : (x.clients w).session.Disciplined .stopAsync) : x.Lifts (x.beginStop w after) (dc, main) := by
  have hcall := hstop
  obtain ⟨rfl, rfl, hconnector⟩ := SharedClients.beginStop_eq_ok hstop
  have hphase : (x.clients w).phase = .running := (h.phase w).trans (if_neg hconnector)
  obtain ⟨session, hrun, -, hsound⟩ := (h.sound w).stop hphase hd
  have hkept := h.streamConnector w (by simp [hphase])
  refine ⟨Function.update x.clients w { x.clients w with session := session, phase := .stopping }, ?_,
    h.move hsound (if_pos rfl).symm (fun _ => hkept) fun n hn _ => if_neg hn⟩
  rw [beginStop, hcall, ok_bind]
  dsimp only
  rw [hrun, ok_bind]

/-- The client that the main fiber tells to stop may be told so. -/
def Stoppable (x : MrpcDistributedClient) (main : MainFiber) : Prop :=
  ∀ w after, main = .stoppingClient w after → (x.clients w).session.Disciplined .stopAsync

theorem lifts_of_ok (h : Clients dc.wrappers main x.clients)
    {result : Except Fault MrpcDistributedClient} (hrun : result = .ok { x with shared := ⟨dc, main, x.shared.cookies⟩ }) :
    x.Lifts result (dc, main) := ⟨x.clients, hrun, h⟩

theorem withDc_receiving (hmain : x.shared.main = .receiving) :
    x.withDc dc = { x with shared := ⟨dc, .receiving, x.shared.cookies⟩ } := by
  rw [withDc, ← hmain]

theorem removeNext_lifts (h : Clients x.shared.dc.wrappers .receiving x.clients) (hmain : x.shared.main = .receiving)
    {ws : List Nat} (hnext : SharedClients.removeNext x.shared.dc ws = .ok (dc, main)) (hd : x.Stoppable main) :
    x.Lifts (x.removeNext ws) (dc, main) := by
  cases ws with
  | nil =>
    obtain ⟨_, hcnt, hnext⟩ := bind_eq_ok hnext
    cases hnext
    refine lifts_of_ok h ?_
    rw [removeNext, ffAssert_of (of_ffAssert hcnt), ok_bind, ← hmain]
  | cons w ws =>
    obtain ⟨_, hpos, hnext⟩ := bind_eq_ok hnext
    obtain ⟨_, hle, hnext⟩ := bind_eq_ok hnext
    rw [removeNext, ffAssert_of (of_ffAssert hpos), ok_bind, ffAssert_of (of_ffAssert hle), ok_bind]
    exact beginStop_lifts h hnext (hd w _ (SharedClients.beginStop_eq_ok hnext).2.1)

theorem addClient_lifts (h : Clients x.shared.dc.wrappers .receiving x.clients) (hmain : x.shared.main = .receiving)
    (hcontroller : x.controller ≠ none) {streamConnector : Nat} {key : UInt64}
    (hadd : SharedClients.addClient ffHashUint32 x.shared.dc streamConnector key = .ok (dc, main))
    (hd : x.Stoppable main) : x.Lifts (x.addClient ffHashUint32 streamConnector key) (dc, main) := by
  unfold SharedClients.addClient at hadd
  obtain ⟨_, hle, hadd⟩ := bind_eq_ok hadd
  rw [addClient, ffAssert_of hcontroller, ok_bind, ffAssert_of (of_ffAssert hle), ok_bind]
  split at hadd
  · rename_i hfull
    cases hadd
    rw [if_pos hfull, withDc_receiving hmain]
    exact ⟨x.clients, rfl, h⟩
  rename_i hfull
  rw [if_neg hfull]
  obtain ⟨⟨w, dc₁⟩, hacquire, hadd⟩ := bind_eq_ok hadd
  obtain ⟨dc₂, hstart, hadd⟩ := bind_eq_ok hadd
  have hkept : dc₁.wrappers = x.shared.dc.wrappers := by
    unfold DistributedClient.acquireClientWrapper at hacquire
    split at hacquire <;> cases hacquire
    rfl
  obtain ⟨client, hstart', hsession, hclients⟩ : ∃ client, (x.withDc dc₁).startWrapper w streamConnector
      = .ok { x with shared := { x.shared with dc := dc₂ }, clients := Function.update x.clients w client } ∧
      client.session = (x.clients w).session ∧
      Clients dc₂.wrappers .receiving (Function.update x.clients w client) :=
    startWrapper_lifts (x := x.withDc dc₁) (hkept ▸ h) hstart
  rw [hacquire, ok_bind]
  dsimp only
  rw [hstart', ok_bind]
  dsimp only
  split at hadd
  · rename_i hdup
    rw [if_pos hdup]
    have hmain' := (SharedClients.beginStop_eq_ok hadd).2.1
    obtain ⟨clients, hrun, hclients'⟩ := beginStop_lifts
      (x := { x with
        shared := { x.shared with dc := dc₂ }, clients := Function.update x.clients w client }) hclients hadd (by
        dsimp only
        rw [Function.update_self, hsession]
        exact hd w _ hmain')
    exact ⟨clients, hrun, hclients'⟩
  · rename_i hdup
    obtain ⟨ch, hch, hadd⟩ := bind_eq_ok hadd
    cases hadd
    rw [if_neg hdup, hch, ok_bind, hmain]
    exact ⟨_, rfl, hclients⟩

theorem removeClient_lifts (h : Clients x.shared.dc.wrappers .receiving x.clients) (hmain : x.shared.main = .receiving)
    (hcontroller : x.controller ≠ none) {key : UInt64}
    (hremove : SharedClients.removeClient ffHashUint32 x.shared.dc key = .ok (dc, main)) (hd : x.Stoppable main) :
    x.Lifts (x.removeClient ffHashUint32 key) (dc, main) := by
  unfold SharedClients.removeClient at hremove
  rw [removeClient, ffAssert_of hcontroller, ok_bind]
  cases hfind : x.shared.dc.clientsMap.find? (fun c => c.1 == key) with
  | none =>
    rw [hfind] at hremove
    cases hremove
    exact lifts_of_ok h (by rw [← hmain])
  | some c =>
    rw [hfind] at hremove
    obtain ⟨_, hpos, hremove⟩ := bind_eq_ok hremove
    obtain ⟨_, hle, hremove⟩ := bind_eq_ok hremove
    obtain ⟨ch, hch, hremove⟩ := bind_eq_ok hremove
    dsimp only
    rw [ffAssert_of (of_ffAssert hpos), ok_bind, ffAssert_of (of_ffAssert hle), ok_bind, hch, ok_bind]
    exact beginStop_lifts (x := x.withDc { x.shared.dc with
      clientsMap := x.shared.dc.clientsMap.filter (fun c => c.1 != key), consistentHash := ch }) h hremove
      (hd _ _ (SharedClients.beginStop_eq_ok hremove).2.1)

theorem removeAllClients_lifts (h : Clients x.shared.dc.wrappers .receiving x.clients)
    (hmain : x.shared.main = .receiving) (hcontroller : x.controller ≠ none)
    (hremove : SharedClients.removeAllClients x.shared.dc = .ok (dc, main)) (hd : x.Stoppable main) :
    x.Lifts x.removeAllClients (dc, main) := by
  obtain ⟨ch, hch, hremove⟩ := bind_eq_ok hremove
  rw [removeAllClients, ffAssert_of hcontroller, ok_bind, hch, ok_bind]
  exact removeNext_lifts (x := x.withDc { x.shared.dc with consistentHash := ch, clientsMap := [] }) h hmain hremove hd

/-- **A message does to the registry what it does in `SharedClients`**, and to the clients what that asks for. -/
theorem receive_lifts (h : Clients x.shared.dc.wrappers .receiving x.clients) (hmain : x.shared.main = .receiving)
    (hcontroller : x.controller ≠ none) {m : Message}
    (hreceive : SharedClients.receive ffHashUint32 x.shared.dc m = .ok (dc, main)) (hd : x.Stoppable main) :
    x.Lifts (x.receive ffHashUint32 m) (dc, main) := by
  cases m with
  | addClient streamConnector key => exact addClient_lifts h hmain hcontroller hreceive hd
  | removeClient key => exact removeClient_lifts h hmain hcontroller hreceive hd
  | removeAllClients => exact removeAllClients_lifts h hmain hcontroller hreceive hd

/-- **A wrapper has stopped**, and its client before it. -/
theorem finishStop_lifts {after : AfterStop} (h : Clients x.shared.dc.wrappers (.waitingEvent w after) x.clients)
    (hfinish : SharedClients.finishStop x.shared.dc w after = .ok (dc, main)) (hd : x.Stoppable main) :
    x.Lifts (x.finishStop w after) (dc, main) := by
  obtain ⟨dc₁, hstop, hfinish⟩ := bind_eq_ok hfinish
  have hclients : Clients dc₁.wrappers .receiving x.clients := by
    have hcall := hstop
    obtain ⟨⟨c, cw⟩, hcw, hstop⟩ := bind_eq_ok hstop
    cases hstop
    obtain ⟨-, rfl⟩ := ClientWrapper.of_stop hcw
    have hphase : (x.clients w).phase = .stopped := (h.phase w).trans (if_pos rfl)
    have hnext : Clients (Function.update x.shared.dc.wrappers w { x.shared.dc.wrappers w with streamConnector := none })
        .receiving (Function.update x.clients w (x.clients w)) :=
      h.update (h.sound w) hphase (fun hne => absurd hphase hne) fun n hn _ => (if_neg hn).symm
    rwa [Function.update_eq_self] at hnext
  rw [finishStop, hstop, ok_bind]
  cases after with
  | rejected =>
    cases hfinish
    exact ⟨x.clients, rfl, hclients⟩
  | removed =>
    cases hfinish
    exact ⟨x.clients, rfl, hclients⟩
  | removedAll rest =>
    exact removeNext_lifts (x := { x with shared := ⟨{ dc₁.releaseClientWrapper w with
      currentClientsCnt := (dc₁.releaseClientWrapper w).currentClientsCnt - 1 }, .receiving, x.shared.cookies⟩ })
      hclients rfl hfinish hd

end MrpcDistributedClient
end Mrpc
