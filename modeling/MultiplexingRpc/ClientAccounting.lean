import MultiplexingRpc.DistributedClient
/-!
# ClientAccounting — the resources of the distributed client

A registered client has an entry of `clients_map`, 128 entries of the ring, a wrapper of the pool and a connector.  The
four are updated in different orders on every path of the main fiber; the counts agree after every message, and nothing
is left after the last.  Keys may share ring points: the ring then carries the right number of entries at each point,
if not the right clients.
-/
namespace Mrpc.DistributedClient

open KeyedList ConsistentHash

variable (ffHashUint32 : UInt32 → List UInt32 → UInt32)

/-- `distributed_client_main_func`, for the messages in front of `MRPC_DISTRIBUTED_CLIENT_STOP`. -/
def distributedClientMainFunc (dc : DistributedClient) (messages : List Message) : Except Fault DistributedClient := do
  let dc ← messages.foldlM (handle ffHashUint32) dc
  dc.removeAllClients

/-- **The counts agree**, for a distributed client that got the connectors `arrived`. -/
structure Tallied (expectedClientsOrder : Nat) (arrived : List Nat) (dc : DistributedClient) : Prop where
  clients : dc.currentClientsCnt = dc.clientsMap.length
  wrappers : dc.clientWrappersPool.used = dc.currentClientsCnt
  bound : dc.currentClientsCnt ≤ 2 ^ (expectedClientsOrder + 1)
  ring : dc.consistentHash.entriesCnt = 128 * dc.currentClientsCnt
  connectors : dc.connectors.Perm arrived

theorem length_ringPoints (key : UInt64) : (ringPoints ffHashUint32 key).length = 128 := by
  simp [ringPoints, points, uniformFactor]

/-- The ring's entries are at the points of the registered keys, whoever they belong to. -/
theorem Accounted.points_perm {dc : DistributedClient} (h : dc.Accounted ffHashUint32) :
    (dc.consistentHash.entries.map Entry.key).Perm (dc.clientsMap.flatMap fun c => ringPoints ffHashUint32 c.1) := by
  apply List.perm_iff_count.2
  intro p
  have hheight : (dc.consistentHash.entries.map Entry.key).count p
      = (atKey Entry.point p.toNat dc.consistentHash.entries).length := by
    rw [List.count_eq_countP, List.countP_map, atKey, ← List.countP_eq_length_filter]
    apply List.countP_congr
    intro e _
    simp [Entry.point, UInt32.toNat_inj]
  rw [hheight, h.heights p, List.count_flatMap]
  rfl

theorem Accounted.entriesCnt {dc : DistributedClient} (h : dc.Accounted ffHashUint32) :
    dc.consistentHash.entriesCnt = 128 * dc.currentClientsCnt := by
  have hlen := (h.points_perm ffHashUint32).length_eq
  rw [List.length_map, List.length_flatMap] at hlen
  rw [h.ring.count, hlen, h.count]
  simp only [length_ringPoints, List.map_const', List.sum_replicate, smul_eq_mul]
  rw [Nat.mul_comm, Nat.cast_mul]
  rfl

theorem Accounted.tallied {dc : DistributedClient} (h : dc.Accounted ffHashUint32) {order : Nat}
    (hmax : dc.maxClientsCnt = 2 ^ (order + 1)) {arrived : List Nat} (hconn : dc.connectors.Perm arrived) :
    Tallied order arrived dc := by
  constructor
  · exact h.count
  · rw [Pool.used_eq_length h.pool h.distinct h.inUse, List.length_map, h.count]
  · exact hmax ▸ h.bound
  · exact h.entriesCnt ffHashUint32
  · exact hconn

/-- **A run keeps everything accounted for**, and the connectors with it. -/
theorem Accounted.foldlM_handle : ∀ (messages : List Message) {dc : DistributedClient}, dc.Accounted ffHashUint32 →
    ∃ dc', messages.foldlM (DistributedClient.handle ffHashUint32) dc = .ok dc' ∧ dc'.Accounted ffHashUint32 ∧
      dc'.maxClientsCnt = dc.maxClientsCnt ∧ dc'.connectors.Perm (dc.connectors ++ messages.flatMap Message.arrived)
  | [], dc, h => ⟨dc, rfl, h, rfl, by rw [List.flatMap_nil, List.append_nil]⟩
  | m :: messages, dc, h => by
    obtain ⟨dc₁, hm, h₁, hkeeps, -⟩ := h.handle ffHashUint32 m
    obtain ⟨dc₂, hrest, h₂, hmax, hconn⟩ := foldlM_handle messages h₁
    refine ⟨dc₂, ?_, h₂, hmax.trans hkeeps.maxClientsCnt, hconn.trans ?_⟩
    · rw [List.foldlM_cons, hm, ok_bind, hrest]
    · rw [List.flatMap_cons, ← List.append_assoc]
      exact (hkeeps.connectors.trans List.perm_append_comm).append_right _

/-- **Distributed-client accounting.**  Every run of messages is handled to its end, with the counts in agreement after
each message; after `STOP` nothing is registered, checked out or on the ring, and each connector that arrived was
deleted once. -/
theorem accounting_of_run (order : Nat) (dc₀ : DistributedClient) (hcreate : create order = .ok dc₀)
    (messages : List Message) :
    (∀ handled, handled <+: messages → ∃ dc, handled.foldlM (handle ffHashUint32) dc₀ = .ok dc ∧
      Tallied order (handled.flatMap Message.arrived) dc) ∧
    ∃ dc, distributedClientMainFunc ffHashUint32 dc₀ messages = .ok dc ∧
      Tallied order (messages.flatMap Message.arrived) dc ∧ dc.currentClientsCnt = 0 ∧ dc.clientsMap = [] ∧
      dc.deletedConnectors.Perm (messages.flatMap Message.arrived) := by
  obtain ⟨h₀, hempty, -⟩ := accounted_create ffHashUint32 hcreate
  have hmax₀ : dc₀.maxClientsCnt = 2 ^ (order + 1) := by
    unfold create at hcreate
    obtain ⟨_, -, hcreate⟩ := bind_eq_ok hcreate
    obtain ⟨ch, -, hcreate⟩ := bind_eq_ok hcreate
    cases hcreate
    rw [Nat.add_comm]
  have hconn₀ : dc₀.connectors = [] := by
    unfold create at hcreate
    obtain ⟨_, -, hcreate⟩ := bind_eq_ok hcreate
    obtain ⟨ch, -, hcreate⟩ := bind_eq_ok hcreate
    cases hcreate
    rfl
  constructor
  · intro handled _
    obtain ⟨dc, hrun, h, hmax, hconn⟩ := h₀.foldlM_handle ffHashUint32 handled
    rw [hconn₀, List.nil_append] at hconn
    exact ⟨dc, hrun, h.tallied ffHashUint32 (hmax.trans hmax₀) hconn⟩
  · obtain ⟨dc, hrun, h, hmax, hconn⟩ := h₀.foldlM_handle ffHashUint32 messages
    rw [hconn₀, List.nil_append] at hconn
    obtain ⟨dc', hstop, h', hkeeps, hmap, -⟩ := h.removeAllClients ffHashUint32
    have hconn' : dc'.connectors.Perm (messages.flatMap Message.arrived) := hkeeps.connectors.trans hconn
    refine ⟨dc', ?_, h'.tallied ffHashUint32 ((hkeeps.maxClientsCnt.trans hmax).trans hmax₀) hconn', ?_, hmap, ?_⟩
    · unfold distributedClientMainFunc
      rw [hrun, ok_bind, hstop]
    · rw [h'.count, hmap]
      rfl
    · rw [DistributedClient.connectors, hmap, List.filterMap_nil, List.append_nil] at hconn'
      exact hconn'

/-- Two clients with one hash, one of them removed, and a duplicate key. -/
theorem accounting_of_run_colliding :
    ∃ dc, distributedClientMainFunc hashZero small
        [.addClient 10 1, .addClient 20 2, .addClient 30 2, .removeClient 1] = .ok dc ∧
      dc.deletedConnectors.Perm [10, 20, 30] := by
  obtain ⟨-, dc, hrun, -, -, -, hperm⟩ := accounting_of_run hashZero 0 small rfl
    [.addClient 10 1, .addClient 20 2, .addClient 30 2, .removeClient 1]
  exact ⟨dc, hrun, hperm⟩

end Mrpc.DistributedClient
