import MultiplexingRpc.MrpcDistributedClient
/-!
# DistributedLifeCycle — the distributed client in every run (`mrpc_distributed_client.c`)

What holds of a distributed client whatever its controller, its users and the fibers of its clients do, and in whatever
order: no assertion fails, connectors are deleted once, and the stop returns when nobody holds a client.
-/
namespace Mrpc

open ConsistentHash

namespace MrpcDistributedClient

variable {ffHashUint32 : UInt32 → List UInt32 → UInt32} {x y : MrpcDistributedClient} {main : MainFiber} {w : Nat}

/-! ## What holds after every run -/

variable (ffHashUint32) in
/-- The registry is sound, the clients are where it has them, and before the main fiber begins and behind its `STOP`
nothing is registered. -/
structure Sound (x : MrpcDistributedClient) : Prop where
  shared : x.shared.Inv ffHashUint32
  separate : SharedClients.Separate ffHashUint32 x.shared.dc.clientsMap
  clients : Clients x.shared.dc.wrappers x.shared.main x.clients
  controller : x.controller = none ↔ x.phase = .stopped
  unregistered : x.main ≠ .looping → x.shared.dc.clientsMap = []
  idle : x.main = .stopped ∨ x.main = .starting → x.shared.main = .receiving
  phase : x.phase = .stopped → x.main = .stopped ∧ x.stopEvent = false
  stopEvent : x.stopEvent = true → x.main = .stopped
  acquiring : ∀ k ∈ x.acquiring, 0 < k.2 ∧ k.2 < acquireClientMaxTriesCnt

/-- The connectors that come with a call. -/
def Call.arrived : Call → List Nat
  | .message m => m.arrived
  | _ => []

/-- A call goes on to `y`, and some connectors arrive. -/
structure Goes (ffHashUint32 : UInt32 → List UInt32 → UInt32) (x : MrpcDistributedClient) (arrived : List Nat)
    (y : MrpcDistributedClient) : Prop where
  sound : y.Sound ffHashUint32
  handed : y.shared.dc.handed.Perm (arrived ++ x.shared.dc.handed)

theorem sound_create {order : Nat} (horder : order + 7 ≤ 20) :
    ∃ x, create order = .ok x ∧ x.Sound ffHashUint32 ∧ x.shared.dc.handed = [] := by
  obtain ⟨client, hclient, hsound, -⟩ := MrpcClient.sound_create
  have hphase : client.phase = .stopped := by
    obtain ⟨session, -, hcreate⟩ := bind_eq_ok hclient
    cases hcreate
    rfl
  obtain ⟨dc, hcreate, hnew, hhanded⟩ := DistributedClient.create_of_le horder
  obtain ⟨hinv, hsep⟩ : (SharedClients.start dc).Inv ffHashUint32 ∧
      SharedClients.Separate ffHashUint32 dc.clientsMap := SharedClients.inv_start hcreate
  refine ⟨⟨.start dc, fun _ => client, false, none, .stopped, [], .stopped⟩, ?_, ?_, hhanded⟩
  · rw [create, hcreate, ok_bind, hclient, ok_bind]
  · have hwrappers : ∀ n, ((dc.wrappers n).streamConnector) = none := fun n =>
      (hinv.holding.idle n (by simp [SharedClients.inUse, SharedClients.start, hnew, MainFiber.leaving])).1
    exact
      { shared := hinv
        separate := hsep
        clients := ⟨fun _ => hsound, fun n => hphase.trans (if_pos (hwrappers n)).symm, fun _ hne => absurd hphase hne⟩
        controller := iff_of_true rfl rfl
        unregistered := fun _ => hnew
        idle := fun _ => rfl
        phase := fun _ => ⟨rfl, rfl⟩
        stopEvent := fun he => by cases he
        acquiring := fun k hk => by cases hk }

theorem clientPhase_congr {n : Nat} {cw cw' : ClientWrapper} (h : cw.streamConnector = cw'.streamConnector)
    (main : MainFiber) : main.clientPhase n cw = main.clientPhase n cw' := by
  have hphase : cw.phase = cw'.phase := by
    unfold ClientWrapper.phase
    rw [h]
  cases main <;> simp only [MainFiber.clientPhase, hphase]

/-- The users of a wrapper change. -/
theorem Clients.users {wrappers : Nat → ClientWrapper} {clients : Nat → MrpcClient} (h : Clients wrappers main clients)
    {cw : ClientWrapper} (hcw : cw.streamConnector = (wrappers w).streamConnector) :
    Clients (Function.update wrappers w cw) main clients := by
  have hnext : Clients (Function.update wrappers w cw) main (Function.update clients w (clients w)) :=
    h.update (h.sound w) ((h.phase w).trans (clientPhase_congr hcw.symm main))
      (fun hne => (h.streamConnector w hne).trans hcw.symm) fun _ _ _ => rfl
  rwa [Function.update_eq_self] at hnext

namespace Sound

theorem controller_ne (h : x.Sound ffHashUint32) (hmain : x.main ≠ .stopped) : x.controller ≠ none :=
  fun hnone => hmain (h.phase (h.controller.1 hnone)).1

theorem phase_ne (h : x.Sound ffHashUint32) (hmain : x.main ≠ .stopped) : x.phase ≠ .stopped :=
  fun hp => hmain (h.phase hp).1

theorem stopEvent_ne (h : x.Sound ffHashUint32) (hmain : x.main ≠ .stopped) : x.stopEvent ≠ true :=
  mt h.stopEvent hmain

/-- A main fiber that is blocked is in its loop, or behind `STOP`. -/
theorem main_of_blocked (h : x.Sound ffHashUint32) (hmain : x.shared.main ≠ .receiving) :
    x.main ≠ .stopped ∧ x.main ≠ .starting :=
  ⟨fun hs => hmain (h.idle (Or.inl hs)), fun hs => hmain (h.idle (Or.inr hs))⟩

theorem settle (h : x.Sound ffHashUint32) : x.settle.Sound ffHashUint32 := by
  unfold MrpcDistributedClient.settle
  split
  · rename_i hend
    have hne : x.main ≠ .stopped := by simp [hend.1]
    exact { h with
      unregistered := fun _ => h.unregistered (by simp [hend.1])
      idle := fun _ => hend.2
      phase := fun hp => absurd hp (h.phase_ne hne)
      stopEvent := fun _ => rfl }
  · exact h

theorem settle_shared (x : MrpcDistributedClient) : x.settle.shared = x.shared := by
  unfold MrpcDistributedClient.settle
  split <;> rfl

/-- **The registry takes a step**, in the main fiber's loop or behind `STOP`. -/
theorem next (h : x.Sound ffHashUint32) {s : SharedClients} {clients : Nat → MrpcClient}
    (hmain : x.main ≠ .stopped ∧ x.main ≠ .starting) (hinv : s.Inv ffHashUint32)
    (hsep : SharedClients.Separate ffHashUint32 s.dc.clientsMap) (hclients : Clients s.dc.wrappers s.main clients)
    (hmap : x.main ≠ .looping → s.dc.clientsMap = []) :
    { x with shared := s, clients := clients }.Sound ffHashUint32 :=
  { h with
    shared := hinv
    separate := hsep
    clients := hclients
    unregistered := hmap
    idle := fun hidle => by
      rcases hidle with hidle | hidle
      · exact absurd hidle hmain.1
      · exact absurd hidle hmain.2 }

/-! ## Requests -/

/-- **A try to acquire a client** hands out a registered one, or there is none. -/
theorem acquireClient (h : x.Sound ffHashUint32) {requestHashValue : UInt32} {triesCnt : Nat}
    (htries : triesCnt ≤ acquireClientMaxTriesCnt)
    (hlookup : x.shared.dc.consistentHash.isEmpty = false →
      x.shared.dc.consistentHash.outsideStart ffHashUint32 requestHashValue) :
    ∃ y, x.acquireClient ffHashUint32 requestHashValue triesCnt = .ok y ∧ Goes ffHashUint32 x [] y := by
  rw [MrpcDistributedClient.acquireClient, DistributedClient.tryAcquireClient]
  cases hempty : x.shared.dc.consistentHash.isEmpty with
  | true =>
    rw [if_pos rfl]
    refine ⟨_, rfl, ?_⟩
    split
    · exact ⟨h, List.Perm.refl _⟩
    · refine ⟨{ h with acquiring := fun k hk => ?_ }, List.Perm.refl _⟩
      rcases List.mem_cons.1 hk with rfl | hk
      · exact ⟨by dsimp only; omega, by dsimp only; omega⟩
      · exact h.acquiring k hk
  | false =>
    obtain ⟨w, hget⟩ := h.shared.ringed.wellFormed.getEntry_of_outsideStart (hlookup hempty)
    have hpos : x.shared.dc.consistentHash.entriesCnt > 0 := by
      have hcount := h.shared.ringed.wellFormed.count
      simp only [isEmpty, beq_eq_false_iff_ne] at hempty
      omega
    have hreg := h.shared.ringed.getEntry hpos hget
    obtain ⟨cw, hcw, hheld⟩ := h.shared.holding.acquire (List.mem_append_left _ hreg)
    have hsame : cw.streamConnector = (x.shared.dc.wrappers w).streamConnector := by
      obtain ⟨_, -, hcw⟩ := bind_eq_ok hcw
      cases hcw
      rfl
    rw [if_neg (by simp), hget, ok_bind, hcw, ok_bind]
    refine ⟨_, rfl, { h with shared := ?_, clients := h.clients.users hsame }, ?_⟩
    · exact ⟨hheld, h.shared.capacity, h.shared.ringed, h.shared.count, h.shared.bound, h.shared.cleared⟩
    · exact List.Perm.of_eq (DistributedClient.handed_update hsame)

/-- **A client is released.** -/
theorem release (h : x.Sound ffHashUint32) {cookie : Nat} (hcookie : cookie ∈ x.shared.cookies) :
    ∃ s, x.shared.step ffHashUint32 (.release cookie) = .ok s ∧ Goes ffHashUint32 x [] { x with shared := s } := by
  obtain ⟨s, hstep, hinv⟩ := h.shared.step h.separate (a := .release cookie) hcookie
  refine ⟨s, hstep, ?_⟩
  unfold SharedClients.step at hstep
  dsimp only at hstep
  rw [if_pos hcookie] at hstep
  obtain ⟨cw, hcw, hstep⟩ := bind_eq_ok hstep
  cases hstep
  have hsame : cw.streamConnector = (x.shared.dc.wrappers cookie).streamConnector := by
    obtain ⟨_, -, hcw⟩ := bind_eq_ok hcw
    obtain ⟨_, -, hcw⟩ := bind_eq_ok hcw
    cases hcw
    rfl
  exact ⟨{ h with shared := hinv, clients := h.clients.users hsame },
    List.Perm.of_eq (DistributedClient.handed_update hsame)⟩

/-! ## The main fiber -/

/-- What a message leads to. -/
theorem receive (h : x.Sound ffHashUint32) (hmain : x.main = .looping) (hreceiving : x.shared.main = .receiving)
    {m : Message} (hd : x.Admits ffHashUint32 (.message m)) :
    ∃ s clients, x.receive ffHashUint32 m = .ok { x with shared := s, clients := clients } ∧
      SharedClients.receive ffHashUint32 x.shared.dc m = .ok (s.dc, s.main) ∧ s.Inv ffHashUint32 ∧
      SharedClients.Separate ffHashUint32 s.dc.clientsMap ∧ Clients s.dc.wrappers s.main clients ∧
      s.dc.handed.Perm (m.arrived ++ x.shared.dc.handed) := by
  obtain ⟨dc, main, hreceive, hinv⟩ := h.shared.receive h.separate hreceiving m
  have hstep : x.shared.step ffHashUint32 (.message m) = .ok ⟨dc, main, x.shared.cookies⟩ := by
    unfold SharedClients.step
    rw [hreceiving]
    dsimp only
    rw [hreceive]
    rfl
  obtain ⟨hsep, hstop⟩ := hd _ hstep
  have hclients := h.clients
  rw [hreceiving] at hclients
  obtain ⟨clients, hrun, hclients'⟩ := receive_lifts hclients hreceiving (h.controller_ne (by simp [hmain])) hreceive hstop
  exact ⟨⟨dc, main, x.shared.cookies⟩, clients, hrun, hreceive, hinv, hsep, hclients', h.shared.receive_handed hreceive⟩

theorem message (h : x.Sound ffHashUint32) (hmain : x.main = .looping) (hreceiving : x.shared.main = .receiving)
    {m : Message} (hd : x.Admits ffHashUint32 (.message m)) :
    ∃ y, x.receive ffHashUint32 m = .ok y ∧ Goes ffHashUint32 x m.arrived y := by
  obtain ⟨s, clients, hrun, -, hinv, hsep, hclients, hhanded⟩ := h.receive hmain hreceiving hd
  exact ⟨_, hrun, h.next (by simp [hmain]) hinv hsep hclients fun hne => absurd hmain hne, hhanded⟩

/-- **Behind `STOP` all clients are removed**, and with the last one the main fiber ends. -/
theorem messageStop (h : x.Sound ffHashUint32) (hmain : x.main = .looping) (hreceiving : x.shared.main = .receiving)
    (hd : x.Admits ffHashUint32 (.message .removeAllClients)) :
    ∃ y, x.removeAllClients = .ok y ∧ Goes ffHashUint32 x [] { y with main := .ending }.settle := by
  obtain ⟨s, clients, hrun, hreceive, hinv, hsep, hclients, hhanded⟩ := h.receive hmain hreceiving hd
  have hempty : s.dc.clientsMap = [] := by
    obtain ⟨ch, -, hremove⟩ := bind_eq_ok hreceive
    rw [SharedClients.removeNext_eq_ok hremove]
  have hne : x.main ≠ .stopped := by simp [hmain]
  refine ⟨_, hrun, Sound.settle { h with
    shared := hinv
    separate := hsep
    clients := hclients
    unregistered := fun _ => hempty
    idle := (fun hidle => by rcases hidle with hidle | hidle <;> cases hidle)
    phase := fun hp => absurd hp (h.phase_ne hne)
    stopEvent := fun he => absurd he (h.stopEvent_ne hne) }, ?_⟩
  rw [settle_shared]
  exact hhanded

/-- **`mrpc_client_stop` returns** to the stop of the wrapper. -/
theorem clientStopped (h : x.Sound ffHashUint32) {w : Nat} {after : AfterStop}
    (hmain : x.shared.main = .stoppingClient w after) {client : MrpcClient}
    (hreturn : (x.clients w).call .stopReturn = .ok (some client)) :
    Goes ffHashUint32 x [] { x with
      shared := { x.shared with main := .waitingEvent w after }, clients := Function.update x.clients w client } := by
  have hclient : client.Sound := ((h.clients.sound w).step (c := .stopReturn) trivial (by
    rw [MrpcClient.step, hreturn])).sound
  have hphase : client.phase = .stopped := by
    simp only [MrpcClient.call] at hreturn
    split at hreturn <;> cases hreturn
    rfl
  obtain ⟨s, hstep, hinv⟩ := h.shared.step h.separate (a := .clientStopped) ⟨w, after, hmain⟩
  have hs : s = { x.shared with main := .waitingEvent w after } := by
    unfold SharedClients.step at hstep
    rw [hmain] at hstep
    cases hstep
    rfl
  subst hs
  have hclients := h.clients
  rw [hmain] at hclients
  refine ⟨h.next (h.main_of_blocked (by simp [hmain])) hinv h.separate ?_ h.unregistered, List.Perm.refl _⟩
  refine hclients.move hclient (hphase.trans (if_pos rfl).symm) (fun hne => absurd hphase hne) fun n hn v => ?_
  exact (if_neg hn).trans (if_neg hn).symm

/-- **The wait for the users of a wrapper ends.** -/
theorem eventWaited (h : x.Sound ffHashUint32) {w : Nat} {after : AfterStop}
    (hmain : x.shared.main = .waitingEvent w after) (hevent : (x.shared.dc.wrappers w).stopEvent = true)
    (hd : x.Admits ffHashUint32 .eventWaited) :
    ∃ y, x.finishStop w after = .ok y ∧ Goes ffHashUint32 x [] y.settle := by
  obtain ⟨dc, main, hfinish, hinv⟩ := h.shared.finishStop hmain hevent
  have hstep : x.shared.step ffHashUint32 .eventWaited = .ok ⟨dc, main, x.shared.cookies⟩ := by
    unfold SharedClients.step
    rw [hmain]
    dsimp only
    rw [hfinish]
    rfl
  obtain ⟨hsep, hstop⟩ := hd _ hstep
  have hclients := h.clients
  rw [hmain] at hclients
  obtain ⟨clients, hrun, hclients'⟩ := finishStop_lifts hclients hfinish hstop
  have hw : w < x.shared.dc.clientWrappersPool.created := by
    refine ((h.shared.holding.inUse w).2 (List.mem_append_right _ ?_)).1
    rw [hmain]
    exact List.mem_cons_self
  refine ⟨_, hrun, Sound.settle (h.next (s := ⟨dc, main, x.shared.cookies⟩) (h.main_of_blocked (by simp [hmain])) hinv
    hsep hclients' fun hne => ?_), ?_⟩
  · dsimp only
    rw [SharedClients.finishStop_clientsMap hfinish]
    exact h.unregistered hne
  · rw [settle_shared]
    exact SharedClients.finishStop_handed hw hfinish

/-! ## A stopped distributed client -/

/-- **When it is not running nothing is held**: no client is registered or in use, and the clients of the wrappers are
stopped. -/
theorem nothing_held (h : x.Sound ffHashUint32) (hmain : x.main = .stopped) :
    x.shared.dc.clientsMap = [] ∧ x.shared.cookies = [] ∧ x.shared.dc.currentClientsCnt = 0 ∧
      (∀ n, (x.shared.dc.wrappers n).streamConnector = none ∧ (x.shared.dc.wrappers n).refCnt = 0) ∧
      ∀ n, (x.clients n).phase = .stopped := by
  have hmap := h.unregistered (by simp [hmain])
  have hreceiving := h.idle (Or.inl hmain)
  have huse : x.shared.inUse = [] := by
    rw [SharedClients.inUse, hmap, hreceiving]
    rfl
  have hidle : ∀ n, n ∉ x.shared.inUse := fun n => by
    rw [huse]
    exact List.not_mem_nil
  refine ⟨hmap, List.eq_nil_iff_forall_not_mem.2 fun n hn => ?_, ?_, fun n => ?_, fun n => ?_⟩
  · exact List.count_eq_zero.1 (h.shared.holding.idle n (hidle n)).2.2 hn
  · rw [h.shared.count, hmap, hreceiving]
    rfl
  · obtain ⟨hconnector, hunused, -⟩ := h.shared.holding.idle n (hidle n)
    exact ⟨hconnector, hunused⟩
  · rw [h.clients.phase n, hreceiving]
    exact if_pos (h.shared.holding.idle n (hidle n)).1

/-- **Where nothing is registered, nothing is on the ring.** -/
theorem ring_empty (h : x.Sound ffHashUint32) (hmap : x.shared.dc.clientsMap = []) :
    x.shared.dc.consistentHash.entriesCnt = 0 := by
  rw [h.shared.ringed.wellFormed.count]
  cases hentries : x.shared.dc.consistentHash.entries with
  | nil => rfl
  | cons e rest =>
    have hstacked := h.shared.ringed.stacked e.key
    rw [hmap, List.flatMap_nil, hentries] at hstacked
    have hmem : e ∈ KeyedList.atKey Entry.point e.key.toNat (e :: rest) := List.mem_filter.2 ⟨List.mem_cons_self, by simp [Entry.point]⟩
    rw [hstacked] at hmem
    cases hmem

/-- **A distributed client that is not running can be deleted**, with its wrappers and their clients. -/
theorem delete (h : x.Sound ffHashUint32) (hp : x.phase = .stopped) : x.delete = .ok () := by
  obtain ⟨hmap, -, hcnt, hwrappers, hphase⟩ := h.nothing_held (h.phase hp).1
  have hone : ∀ n, x.deleteClientWrapper n = .ok () := fun n => by
    rw [deleteClientWrapper, ffAssert_of (hwrappers n).1, ok_bind, ffAssert_of (hwrappers n).2, ok_bind,
      (h.clients.sound n).delete (hphase n), ok_bind]
  have hall : ∀ ns : List Nat, ns.forM x.deleteClientWrapper = .ok () := fun ns => by
    induction ns with
    | nil => rfl
    | cons n ns ih =>
      show (x.deleteClientWrapper n >>= fun _ => ns.forM x.deleteClientWrapper) = _
      rw [hone, ok_bind, ih]
  rw [MrpcDistributedClient.delete, ffAssert_of (h.controller.2 hp), ok_bind, ffAssert_of hcnt, ok_bind, hall, ok_bind,
    ffAssert_of (h.ring_empty hmap), ok_bind]

/-! ## Every call -/

/-- **No assertion fails in a call**, and it keeps what holds. -/
theorem call_spec (h : x.Sound ffHashUint32) {c : Call} (hd : x.Disciplined ffHashUint32 c) :
    ∃ r, x.call ffHashUint32 c = .ok r ∧ ∀ y, r = some y → Goes ffHashUint32 x c.arrived y := by
  have hnone : ∀ y : MrpcDistributedClient, (none : Option MrpcDistributedClient) = some y →
      Goes ffHashUint32 x c.arrived y := fun y hy => by cases hy
  have hsome : ∀ {y : MrpcDistributedClient}, Goes ffHashUint32 x c.arrived y → ∀ z, some y = some z →
      Goes ffHashUint32 x c.arrived z := fun hy z hz => by
    cases hz
    exact hy
  cases c with
  | start controller =>
    obtain ⟨hp, hcontroller⟩ := hd
    obtain ⟨hm, he⟩ := h.phase hp
    simp only [call, start]
    rw [ffAssert_of hcontroller, ok_bind, ffAssert_of (h.controller.2 hp), ok_bind,
      ffAssert_of (h.nothing_held hm).2.2.1, ok_bind]
    exact ⟨_, rfl, hsome ⟨{ h with
      controller := iff_of_false hcontroller (by simp)
      unregistered := fun _ => h.unregistered (by simp [hm])
      idle := fun _ => h.idle (Or.inl hm)
      phase := (fun hp' => by cases hp')
      stopEvent := fun he' => by rw [he] at he'; cases he' }, List.Perm.refl _⟩⟩
  | mainStart =>
    simp only [call]
    by_cases hm : x.main = .starting
    · have hne : x.main ≠ .stopped := by simp [hm]
      rw [if_pos hm, mainStart, ffAssert_of (h.controller_ne hne), ok_bind]
      exact ⟨_, rfl, hsome ⟨{ h with
        unregistered := fun hl => absurd rfl hl
        idle := (fun hidle => by rcases hidle with hidle | hidle <;> cases hidle)
        phase := fun hp => absurd hp (h.phase_ne hne)
        stopEvent := fun he => absurd he (h.stopEvent_ne hne) }, List.Perm.refl _⟩⟩
    · rw [if_neg hm]
      exact ⟨none, rfl, hnone⟩
  | message m =>
    simp only [call]
    by_cases hg : x.main = .looping ∧ x.shared.main = .receiving
    · obtain ⟨y, hy, hgoes⟩ := h.message hg.1 hg.2 hd
      rw [if_pos hg, hy]
      exact ⟨_, rfl, hsome hgoes⟩
    · rw [if_neg hg]
      exact ⟨none, rfl, hnone⟩
  | messageStop =>
    simp only [call]
    by_cases hg : x.main = .looping ∧ x.shared.main = .receiving
    · obtain ⟨y, hy, hgoes⟩ := h.messageStop hg.1 hg.2 hd
      rw [if_pos hg, hy, ok_bind]
      exact ⟨_, rfl, hsome hgoes⟩
    · rw [if_neg hg]
      exact ⟨none, rfl, hnone⟩
  | clientStopped =>
    simp only [call]
    split
    · rename_i w after hmain
      obtain ⟨r, hr, -⟩ := (h.clients.sound w).call_spec (c := .stopReturn) trivial
      rw [hr, ok_bind]
      cases r with
      | none => exact ⟨none, rfl, hnone⟩
      | some client => exact ⟨_, rfl, hsome (h.clientStopped hmain hr)⟩
    · exact ⟨none, rfl, hnone⟩
  | eventWaited =>
    simp only [call]
    split
    · rename_i w after hmain
      by_cases hevent : (x.shared.dc.wrappers w).stopEvent = true
      · obtain ⟨y, hy, hgoes⟩ := h.eventWaited hmain hevent hd
        rw [if_pos hevent, hy, ok_bind]
        exact ⟨_, rfl, hsome hgoes⟩
      · rw [if_neg hevent]
        exact ⟨none, rfl, hnone⟩
    · exact ⟨none, rfl, hnone⟩
  | acquire requestHashValue =>
    obtain ⟨hp, hlookup⟩ := hd
    obtain ⟨y, hy, hgoes⟩ := h.acquireClient (le_refl _) hlookup
    simp only [call]
    rw [ffAssert_of (mt h.controller.1 hp), ok_bind, hy]
    exact ⟨_, rfl, hsome hgoes⟩
  | retry requestHashValue triesCnt =>
    simp only [call]
    by_cases hmem : (requestHashValue, triesCnt) ∈ x.acquiring
    · have herased : Sound ffHashUint32 { x with acquiring := x.acquiring.erase (requestHashValue, triesCnt) } :=
        { h with acquiring := fun k hk => h.acquiring k (List.mem_of_mem_erase hk) }
      obtain ⟨y, hy, hgoes⟩ := herased.acquireClient (h.acquiring _ hmem).2.le hd
      rw [if_pos hmem, hy]
      exact ⟨_, rfl, hsome ⟨hgoes.sound, hgoes.handed⟩⟩
    · rw [if_neg hmem]
      exact ⟨none, rfl, hnone⟩
  | release cookie =>
    obtain ⟨s, hs, hgoes⟩ := h.release hd
    simp only [call]
    rw [hs, ok_bind]
    exact ⟨_, rfl, hsome hgoes⟩
  | client n c =>
    simp only [call]
    by_cases hc : Others c = true
    · obtain ⟨r, hr, hclient⟩ := (h.clients.sound n).call_spec hd
      rw [if_pos hc, hr, ok_bind]
      cases r with
      | none => exact ⟨none, rfl, hnone⟩
      | some client =>
        obtain ⟨hphase, hconnector⟩ := MrpcClient.kept_of_others hc hr
        refine ⟨_, rfl, hsome ⟨{ h with clients := h.clients.move (hclient client rfl).sound ?_ ?_ fun _ _ _ => rfl },
          List.Perm.refl _⟩⟩
        · exact hphase.trans (h.clients.phase n)
        · intro hne
          rw [hconnector]
          exact h.clients.streamConnector n (hphase ▸ hne)
    · rw [if_neg hc]
      exact ⟨none, rfl, hnone⟩
  | stop =>
    have hp : x.phase = .running := hd
    have hcontroller : x.controller ≠ none := fun hnone => by
      have hstopped := h.controller.1 hnone
      rw [hp] at hstopped
      cases hstopped
    simp only [call, stop]
    rw [ffAssert_of hcontroller, ok_bind]
    exact ⟨_, rfl, hsome ⟨{ h with
      controller := iff_of_false hcontroller (by simp)
      phase := fun hp' => by cases hp' }, List.Perm.refl _⟩⟩
  | stopReturn =>
    simp only [call]
    by_cases hg : x.phase = .stopping ∧ x.stopEvent = true
    · have hm := h.stopEvent hg.2
      rw [if_pos hg, stopReturn, ffAssert_of (h.nothing_held hm).2.2.1, ok_bind]
      exact ⟨_, rfl, hsome ⟨{ h with
        controller := iff_of_true rfl rfl
        phase := fun _ => ⟨hm, rfl⟩
        stopEvent := fun he => by cases he }, List.Perm.refl _⟩⟩
    · rw [if_neg hg]
      exact ⟨none, rfl, hnone⟩
  | delete =>
    simp only [call]
    rw [h.delete hd.1, ok_bind]
    exact ⟨none, rfl, hnone⟩

/-- A run of calls. -/
theorem run : ∀ (cs : List Call) {x y : MrpcDistributedClient}, x.Sound ffHashUint32 →
    Run.Meets (step ffHashUint32) (Disciplined ffHashUint32) x cs → Run.exec (step ffHashUint32) x cs = some y →
      y.Sound ffHashUint32 ∧ y.shared.dc.handed.Perm (cs.flatMap Call.arrived ++ x.shared.dc.handed)
  | [], x, y, h, _, hrun => by
    cases hrun
    exact ⟨h, List.Perm.refl _⟩
  | c :: cs, x, y, h, hd, hrun => by
    obtain ⟨z, hz, hrun⟩ := Run.exec_cons.1 hrun
    obtain ⟨r, hcall, hgoes⟩ := h.call_spec hd.1
    have hz' : r = some z := by
      rw [step, hcall] at hz
      exact hz
    have hstep := hgoes z hz'
    obtain ⟨hy, hperm⟩ := run cs hstep.sound (hd.2 z hz) hrun
    refine ⟨hy, hperm.trans ?_⟩
    rw [List.flatMap_cons, List.append_assoc]
    exact (hstep.handed.append_left _).trans (List.perm_append_comm_assoc _ _ _)

end Sound

/-- **The distributed client stops clean**, in any order of the controller's messages, the requests, the steps of the
clients' fibers and any number of starts and stops.  No assertion fails; the connectors that arrived were deleted, once
each, but for those in use; once told to stop by its controller it hands out no client; and when it is not running nobody
holds a client, nothing is registered or on the ring, all connectors are deleted, all clients are stopped, and it can be
deleted with all its wrappers. -/
theorem stops_clean (ffHashUint32 : UInt32 → List UInt32 → UInt32) (expectedClientsOrder : Nat)
    (horder : expectedClientsOrder + 7 ≤ 20) : ∃ x₀, create expectedClientsOrder = .ok x₀ ∧
      ∀ (cs : List Call) (x : MrpcDistributedClient), Run.Meets (step ffHashUint32) (Disciplined ffHashUint32) x₀ cs →
        Run.exec (step ffHashUint32) x₀ cs = some x →
          (∀ c, x.Disciplined ffHashUint32 c → ∃ r, x.call ffHashUint32 c = .ok r) ∧
          (cs.flatMap Call.arrived).Perm (x.shared.dc.deletedConnectors ++ x.shared.dc.held) ∧
          (x.main ≠ .looping → ∀ requestHashValue,
            x.shared.dc.tryAcquireClient ffHashUint32 requestHashValue = .ok (none, x.shared.dc)) ∧
          (x.phase = .stopped → x.shared.cookies = [] ∧ x.shared.dc.clientsMap = [] ∧
            x.shared.dc.consistentHash.entriesCnt = 0 ∧ (cs.flatMap Call.arrived).Perm x.shared.dc.deletedConnectors ∧
            (∀ n, (x.clients n).phase = .stopped ∧ (x.clients n).stream = none) ∧ x.delete = .ok ()) := by
  obtain ⟨x₀, hcreate, hx₀, hnew⟩ : ∃ x, create expectedClientsOrder = .ok x ∧ x.Sound ffHashUint32 ∧
      x.shared.dc.handed = [] := sound_create horder
  refine ⟨x₀, hcreate, fun cs x hd hrun => ?_⟩
  obtain ⟨h, hperm⟩ := hx₀.run cs hd hrun
  rw [hnew, List.append_nil] at hperm
  refine ⟨fun c hc => ?_, hperm.symm, fun hne requestHashValue => ?_, fun hp => ?_⟩
  · obtain ⟨r, hr, -⟩ := h.call_spec hc
    exact ⟨r, hr⟩
  · have hempty : x.shared.dc.consistentHash.isEmpty = true := by
      rw [isEmpty, h.ring_empty (h.unregistered hne)]
      rfl
    rw [DistributedClient.tryAcquireClient, if_pos hempty]
    rfl
  · have hmain := (h.phase hp).1
    obtain ⟨hmap, hcookies, -, hwrappers, hclients⟩ := h.nothing_held hmain
    have hheld : x.shared.dc.held = [] :=
      List.filterMap_eq_nil_iff.2 fun n _ => (hwrappers n).1
    refine ⟨hcookies, hmap, h.ring_empty hmap, ?_, fun n => ⟨hclients n, ?_⟩, h.delete hp⟩
    · rw [DistributedClient.handed, hheld, List.append_nil] at hperm
      exact hperm.symm
    · exact (h.clients.sound n).stream_none (by simp [((h.clients.sound n).phase (hclients n)).1])

/-- At most one client is registered, and nobody waits for a request stream. -/
def alone (x : MrpcDistributedClient) (a : SharedAct) : Bool :=
  match x.shared.step DistributedClient.hashZero a with
  | .error _ => true
  | .ok s =>
    decide (s.dc.clientsMap.length ≤ 1) && match s.main with
      | .stoppingClient w _ => decide ((x.clients w).session.processor.client.client.waiters = 0)
      | _ => true

theorem admits_of_alone {a : SharedAct} (h : alone x a = true) : x.Admits DistributedClient.hashZero a := by
  intro s hs
  unfold alone at h
  rw [hs] at h
  obtain ⟨hlen, hwaiters⟩ := Bool.and_eq_true_iff.1 h
  refine ⟨SharedClients.separate_of_length_le (of_decide_eq_true hlen), fun w after hmain => ⟨trivial, fun b hb _ => ?_⟩⟩
  cases hb
  rw [hmain] at hwaiters
  exact of_decide_eq_true hwaiters

/-- One client is registered, handed out and, when all is to stop, given back. -/
def handingOut : List Call :=
  [.start (some 1), .mainStart, .message (.addClient 10 1), .client 0 .mainStart, .acquire 5, .stop, .messageStop,
    .client 0 .connectNull, .clientStopped, .release 0, .eventWaited, .stopReturn]

/-- `Disciplined`, as far as those calls go. -/
def disciplined (x : MrpcDistributedClient) : Call → Bool
  | .start controller => decide (x.phase = .stopped ∧ controller ≠ none)
  | .message m => alone x (.message m)
  | .messageStop => alone x (.message .removeAllClients)
  | .eventWaited => alone x .eventWaited
  | .acquire _ => decide (x.phase ≠ .stopped) && !x.shared.dc.consistentHash.entries.isEmpty
  | .release cookie => decide (cookie ∈ x.shared.cookies)
  | .client _ c => decide (c = .mainStart ∨ c = .connectNull)
  | .stop => decide (x.phase = .running)
  | .mainStart | .clientStopped | .stopReturn => true
  | .retry _ _ | .delete => false

theorem disciplined_of_check {c : Call} (h : disciplined x c = true) : x.Disciplined DistributedClient.hashZero c := by
  cases c with
  | start controller =>
    have hok : x.phase = .stopped ∧ controller ≠ none := of_decide_eq_true h
    exact hok
  | message m => exact admits_of_alone h
  | messageStop => exact admits_of_alone h
  | eventWaited => exact admits_of_alone h
  | acquire requestHashValue =>
    obtain ⟨hp, hentries⟩ := Bool.and_eq_true_iff.1 h
    refine ⟨of_decide_eq_true hp, fun _ => ?_⟩
    cases he : x.shared.dc.consistentHash.entries with
    | nil =>
      rw [he] at hentries
      cases hentries
    | cons e rest => exact ⟨e, by rw [he]; exact List.mem_cons_self, Or.inl (Nat.zero_le _)⟩
  | release cookie =>
    have hok : cookie ∈ x.shared.cookies := of_decide_eq_true h
    exact hok
  | client n c => rcases of_decide_eq_true h with rfl | rfl <;> exact trivial
  | stop =>
    have hok : x.phase = .running := of_decide_eq_true h
    exact hok
  | mainStart | clientStopped | stopReturn => exact trivial
  | retry | delete => cases h

set_option maxRecDepth 100000 in
theorem stops_clean_handingOut : ∃ x₀ x, create 0 = .ok x₀ ∧
    Run.Meets (step DistributedClient.hashZero) (Disciplined DistributedClient.hashZero) x₀ handingOut ∧
    Run.exec (step DistributedClient.hashZero) x₀ handingOut = some x ∧ x.phase = .stopped ∧
    [10].Perm x.shared.dc.deletedConnectors ∧ x.delete = .ok () := by
  obtain ⟨x₀, hcreate, hall⟩ := stops_clean DistributedClient.hashZero 0 (by decide)
  have hmeets : Run.Meets (step DistributedClient.hashZero) (Disciplined DistributedClient.hashZero) x₀ handingOut := by
    cases hcreate
    exact Run.meets_mono (fun _ _ => disciplined_of_check) _
      (Run.meets_of_check (C := fun x c => disciplined x c = true) _ (by decide +kernel))
  have hphase : (Run.exec (step DistributedClient.hashZero) x₀ handingOut).map MrpcDistributedClient.phase
      = some .stopped := by
    cases hcreate
    decide +kernel
  obtain ⟨x, hrun, hstopped⟩ := Option.map_eq_some_iff.1 hphase
  obtain ⟨-, -, -, hclean⟩ := hall handingOut x hmeets hrun
  obtain ⟨-, -, -, hdeleted, -, hdelete⟩ := hclean hstopped
  exact ⟨x₀, x, hcreate, hmeets, hrun, hstopped, hdeleted, hdelete⟩

end MrpcDistributedClient
end Mrpc
