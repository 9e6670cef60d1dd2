import MultiplexingRpc.GeneratedCode
/-!
# GeneratedCleanup — results and references of the emitted functions

The cleanup behind `end` is emitted by loops of its own, and reached from as many places as a function has calls.
Whatever the calls return, a client function returns everything or nothing and a method handler gives up what it got.
-/
namespace Mrpc

variable {σ V : Type}

/-- The parameter at `i` of a list whose first is at `k` is of a pointer type. -/
def isPtrAt (params : List Param) (k i : Nat) : Bool := decide (k ≤ i) && (params[i - k]?).any cIsParamPtr

theorem isPtrAt_nil (k i : Nat) : isPtrAt [] k i = false := by simp [isPtrAt]

theorem isPtrAt_cons (param : Param) (params : List Param) (k i : Nat) :
    isPtrAt (param :: params) k i = if i = k then cIsParamPtr param else isPtrAt params (k + 1) i := by
  unfold isPtrAt
  by_cases hik : i = k
  · subst hik
    simp
  · rw [if_neg hik]
    by_cases hle : k ≤ i
    · have hsub : i - k = (i - (k + 1)) + 1 := by omega
      have hle' : k + 1 ≤ i := by omega
      simp [hle, hle', hsub]
    · have hle' : ¬ k + 1 ≤ i := by omega
      simp [hle, hle']

theorem isPtrAt_zero {params : List Param} {param : Param} {i : Nat} (h : params[i]? = some param) :
    isPtrAt params 0 i = cIsParamPtr param := by
  simp [isPtrAt, h]

/-! ## The client function -/

namespace ClientState

variable {calls : ClientCalls σ V} {methodId : UInt8} {args : Nat → V}

/-- Nothing was handed to the caller yet, and every response that was decoded has its one reference. -/
structure Fetching (params : List Param) (s : ClientState σ V) : Prop where
  outputs : ∀ i, s.outputs i = none
  refCnt : ∀ i, s.refCnt i = if isPtrAt params 0 i ∧ (s.responses i).isSome then 1 else 0
  stream : s.stream = true
  creations : s.creations = 1
  deletions : s.deletions = 0
  resets : s.resets = 0

/-- A statement that jumps leaves `FF_FAILURE`, another `FF_SUCCESS`. -/
def Reports (jump : Bool) (s : ClientState σ V) : Prop := s.result = if jump then .failure else .success

theorem Fetching.returned {params : List Param} {s : ClientState σ V} (h : s.Fetching params) (call : FfResult × σ) :
    (s.returned call).Fetching params :=
  ⟨h.outputs, h.refCnt, h.stream, h.creations, h.deletions, h.resets⟩

theorem reports_returned (s : ClientState σ V) (call : FfResult × σ) :
    Reports (decide (call.1 ≠ .success)) (s.returned call) := by
  obtain ⟨result, world⟩ := call
  cases result <;> rfl

theorem Fetching.decoded {params : List Param} {s : ClientState σ V} (h : s.Fetching params) {i : Nat} {param : Param}
    (hparam : params[i]? = some param) (v : V) (world : σ) : (s.decoded i param v world).Fetching params := by
  refine ⟨h.outputs, fun j => ?_, h.stream, h.creations, h.deletions, h.resets⟩
  have hj := h.refCnt j
  unfold ClientState.decoded
  by_cases hij : j = i
  · subst hij
    rw [isPtrAt_zero hparam] at hj ⊢
    cases hp : cIsParamPtr param with
    | true => simp
    | false => simpa [hp] using hj
  · cases cIsParamPtr param with
    | true => simpa [hij] using hj
    | false => simpa [hij] using hj

/-- The statements between the stream's creation and the last decoding. -/
def fetchStmts (method : Method) : List ClientStmt :=
  [.writeMethodId] ++ method.requestParams.zipIdx.map (fun (param, i) => .serialize i param) ++ [.flush] ++
    match method.responseParams with
    | [] => [.readEmptyByte]
    | _ => method.responseParams.zipIdx.map (fun (param, i) => .unserialize i param)

/-- The statements that hand the responses from the `k`-th on to the caller. -/
def assignStmts (params : List Param) (k : Nat) : List ClientStmt :=
  (params.zipIdx k).flatMap (fun (param, i) => .assign i :: if cIsParamPtr param then [.incRef i] else [])

theorem body_dumpClientMethod (method : Method) (id : Nat) :
    (dumpClientMethod method id).body
      = .createRequestStream :: (fetchStmts method ++ assignStmts method.responseParams 0) := by
  unfold dumpClientMethod fetchStmts assignStmts
  cases hp : method.responseParams with
  | nil => simp
  | cons param params => simp

/-- **Every statement of the fetching part** keeps the references balanced and reports what happened. -/
theorem fetching_exec (calls : ClientCalls σ V) (methodId : UInt8) (args : Nat → V) {method : Method}
    {stmt : ClientStmt} (hstmt : stmt ∈ fetchStmts method) {s : ClientState σ V} (h : s.Fetching method.responseParams) :
    (stmt.exec calls methodId args s).2.Fetching method.responseParams ∧
      Reports (stmt.exec calls methodId args s).1 (stmt.exec calls methodId args s).2 := by
  cases stmt with
  | createRequestStream =>
    unfold fetchStmts at hstmt
    split at hstmt <;> simp at hstmt
  | writeMethodId => exact ⟨h.returned _, reports_returned _ _⟩
  | serialize i param => exact ⟨h.returned _, reports_returned _ _⟩
  | flush => exact ⟨h.returned _, reports_returned _ _⟩
  | readEmptyByte =>
    rcases hread : calls.read s.world with ⟨byte, world⟩
    cases byte with
    | none =>
      simp only [ClientStmt.exec, hread]
      exact ⟨h.returned _, rfl⟩
    | some emptyByte =>
      simp only [ClientStmt.exec, hread]
      split
      · exact ⟨h.returned _, rfl⟩
      · exact ⟨h.returned _, rfl⟩
  | unserialize i param =>
    have hparam : method.responseParams[i]? = some param := by
      unfold fetchStmts at hstmt
      split at hstmt
      · simp at hstmt
      · simpa [List.mem_zipIdx_iff_getElem?] using hstmt
    rcases hread : calls.unserialize param.type s.world with ⟨v, world⟩
    cases v with
    | none =>
      simp only [ClientStmt.exec, hread]
      exact ⟨h.returned _, rfl⟩
    | some v =>
      simp only [ClientStmt.exec, hread]
      exact ⟨h.decoded hparam v world, rfl⟩
  | assign i =>
    unfold fetchStmts at hstmt
    split at hstmt <;> simp at hstmt
  | incRef i =>
    unfold fetchStmts at hstmt
    split at hstmt <;> simp at hstmt

/-- The responses from the `k`-th on are with the caller, who has a reference of his own to each. -/
def assigned (params : List Param) (k : Nat) (s : ClientState σ V) : ClientState σ V :=
  { s with
    outputs := fun i => if k ≤ i ∧ i < k + params.length then s.responses i else s.outputs i
    refCnt := fun i => if isPtrAt params k i then s.refCnt i + 1 else s.refCnt i }

theorem assigned_nil (k : Nat) (s : ClientState σ V) : s.assigned [] k = s := by
  have houtputs : (fun i => if k ≤ i ∧ i < k + 0 then s.responses i else s.outputs i) = s.outputs := by
    funext i
    rw [if_neg (by omega)]
  simp only [assigned, isPtrAt_nil, List.length_nil, houtputs]
  rfl

theorem assigned_cons (param : Param) (params : List Param) (k : Nat) (s : ClientState σ V) :
    s.assigned (param :: params) k = (s.assigned [param] k).assigned params (k + 1) := by
  unfold assigned
  simp only [ClientState.mk.injEq, true_and, and_true, List.length_cons, List.length_nil]
  constructor
  · funext i
    by_cases hik : i = k
    · subst hik
      simp [isPtrAt]
    · simp only [isPtrAt_cons, isPtrAt_nil, if_neg hik, Bool.false_eq_true, if_false]
  · funext i
    by_cases hik : i = k
    · subst hik
      simp
    · have h1 : (k + 1 ≤ i ∧ i < k + 1 + params.length) ↔ (k ≤ i ∧ i < k + (params.length + 1)) := by omega
      have h2 : ¬ (k ≤ i ∧ i < k + (0 + 1)) := by omega
      simp only [h1, h2, if_false]

/-- The statements for one response. -/
theorem run_assignStmt (param : Param) (k : Nat) (s : ClientState σ V) :
    Block.run (ClientStmt.exec calls methodId args) (.assign k :: if cIsParamPtr param then [.incRef k] else []) s
      = (false, s.assigned [param] k) := by
  have houtputs : (fun i => if k ≤ i ∧ i < k + (0 + 1) then s.responses i else s.outputs i)
      = Function.update s.outputs k (s.responses k) := by
    funext i
    by_cases hik : i = k
    · subst hik
      simp
    · rw [Function.update_of_ne hik, if_neg (by omega)]
  have hrefCnt : (fun i => if isPtrAt [param] k i then s.refCnt i + 1 else s.refCnt i)
      = if cIsParamPtr param then Function.update s.refCnt k (s.refCnt k + 1) else s.refCnt := by
    funext i
    by_cases hik : i = k
    · subst hik
      cases hp : cIsParamPtr param <;> simp [isPtrAt_cons, hp]
    · cases hp : cIsParamPtr param <;> simp [isPtrAt_cons, isPtrAt_nil, hik]
  simp only [assigned, List.length_cons, List.length_nil, houtputs, hrefCnt]
  cases cIsParamPtr param <;> rfl

/-- **Handing over never jumps.** -/
theorem run_assignStmts : ∀ (params : List Param) (k : Nat) (s : ClientState σ V),
    Block.run (ClientStmt.exec calls methodId args) (assignStmts params k) s = (false, s.assigned params k)
  | [], k, s => by
    rw [assigned_nil]
    rfl
  | param :: params, k, s => by
    have hcons : assignStmts (param :: params) k
        = (.assign k :: if cIsParamPtr param then [.incRef k] else []) ++ assignStmts params (k + 1) := by
      simp [assignStmts]
    rw [hcons, Block.run_append_of_next (run_assignStmt param k s), run_assignStmts params (k + 1),
      ← assigned_cons]

/-! ## What was decoded -/

/-- **Decoding that does not jump sets every response.** -/
theorem isSome_of_run_unserialize : ∀ (params : List Param) (k : Nat) {s t : ClientState σ V},
    Block.run (ClientStmt.exec calls methodId args)
      ((params.zipIdx k).map (fun (param, i) => ClientStmt.unserialize i param)) s = (false, t) →
    (∀ i, i < k → (s.responses i).isSome) → ∀ i, i < k + params.length → (t.responses i).isSome
  | [], k, s, t, h, hs, i, hi => by
    cases h
    exact hs i hi
  | param :: params, k, s, t, h, hs, i, hi => by
    rw [List.zipIdx_cons, List.map_cons] at h
    rcases hread : calls.unserialize param.type s.world with ⟨v, world⟩
    cases v with
    | none =>
      rw [Block.run_cons_of_jump (t := s.returned (.failure, world)) (by simp only [ClientStmt.exec, hread])] at h
      cases h
    | some v =>
      rw [Block.run_cons_of_next (t := s.decoded k param v world) (by simp only [ClientStmt.exec, hread])] at h
      refine isSome_of_run_unserialize params (k + 1) h (fun j hj => ?_) i (by rw [List.length_cons] at hi; omega)
      by_cases hjk : j = k
      · subst hjk
        simp [decoded]
      · simpa [decoded, hjk] using hs j (by omega)

theorem isSome_of_run_fetchStmts {method : Method} {s t : ClientState σ V}
    (h : Block.run (ClientStmt.exec calls methodId args) (fetchStmts method) s = (false, t)) (i : Nat)
    (hi : i < method.responseParams.length) : (t.responses i).isSome := by
  unfold fetchStmts at h
  rcases hfirst : Block.run (ClientStmt.exec calls methodId args) ([.writeMethodId] ++
    method.requestParams.zipIdx.map (fun (param, i) => .serialize i param) ++ [.flush]) s with ⟨jump, s₁⟩
  cases jump with
  | true =>
    rw [Block.run_append_of_jump hfirst] at h
    cases h
  | false =>
    rw [Block.run_append_of_next hfirst] at h
    split at h
    · rename_i hnil
      rw [hnil] at hi
      cases hi
    · exact isSome_of_run_unserialize _ 0 h (fun j hj => absurd hj (Nat.not_lt_zero j)) i (by omega)

/-! ## Behind the label -/

/-- The references to the responses from the `k`-th on are given up. -/
def unreferenced (params : List Param) (k : Nat) (s : ClientState σ V) : ClientState σ V :=
  { s with refCnt := fun i => if isPtrAt params k i ∧ (s.responses i).isSome then s.refCnt i - 1 else s.refCnt i }

theorem foldl_decRef : ∀ (params : List Param) (k : Nat) (s : ClientState σ V),
    ((params.zipIdx k).flatMap (fun (param, i) => if cIsParamPtr param then [ClientExitStmt.decRef i] else [])).foldl
      (fun s stmt => stmt.exec calls s) s = s.unreferenced params k
  | [], k, s => by
    simp only [unreferenced, isPtrAt_nil, Bool.false_eq_true, false_and, if_false]
    rfl
  | param :: params, k, s => by
    have hone : (if cIsParamPtr param then [ClientExitStmt.decRef k] else []).foldl (fun s stmt => stmt.exec calls s) s
        = s.unreferenced [param] k := by
      have hrefCnt : (fun i => if isPtrAt [param] k i ∧ (s.responses i).isSome then s.refCnt i - 1 else s.refCnt i)
          = if cIsParamPtr param ∧ (s.responses k).isSome then Function.update s.refCnt k (s.refCnt k - 1)
            else s.refCnt := by
        funext i
        by_cases hik : i = k
        · subst hik
          cases hp : cIsParamPtr param <;> cases (s.responses i).isSome <;> simp [isPtrAt_cons, hp]
        · cases hp : cIsParamPtr param <;> cases (s.responses k).isSome <;> simp [isPtrAt_cons, isPtrAt_nil, hik]
      simp only [unreferenced, hrefCnt]
      cases cIsParamPtr param with
      | true => cases hr : (s.responses k).isSome <;> simp [ClientExitStmt.exec, hr]
      | false => simp
    rw [List.zipIdx_cons, List.flatMap_cons, List.foldl_append, hone, foldl_decRef params (k + 1)]
    unfold unreferenced
    congr 1
    funext i
    by_cases hik : i = k
    · subst hik
      simp [isPtrAt]
    · simp only [isPtrAt_cons, isPtrAt_nil, if_neg hik, Bool.false_eq_true, false_and, if_false]

/-- The world behind the label. -/
def exitWorld (calls : ClientCalls σ V) (s : ClientState σ V) : σ :=
  let world := if s.result = .success then s.world else calls.resetConnection s.world
  if s.stream then calls.deleteStream world else world

/-- **What happens behind the label**: the connection is reset after a failure, the function's own references go, and
the stream is deleted if there is one. -/
theorem run_exit (calls : ClientCalls σ V) (method : Method) (id : Nat) (s : ClientState σ V) :
    (dumpClientMethod method id).exit.foldl (fun s stmt => stmt.exec calls s) s
      = { s.unreferenced method.responseParams 0 with
          world := exitWorld calls s
          resets := s.resets + if s.result = .success then 0 else 1
          deletions := s.deletions + if s.stream then 1 else 0 } := by
  unfold dumpClientMethod
  dsimp only
  rw [List.foldl_append, List.foldl_append, foldl_decRef]
  obtain ⟨world, stream, responses, refCnt, outputs, result, creations, deletions, resets⟩ := s
  cases result with
  | success => cases stream <;> rfl
  | failure => cases stream <;> rfl

/-- **Everything or nothing.**  After `FF_SUCCESS` every output is set, with one reference for the caller if it is a
pointer; after `FF_FAILURE` no output is set, nothing that was decoded has a reference left, and the connection was
reset.  A stream that was created was deleted, once. -/
structure AllOrNothing (method : Method) (s : ClientState σ V) : Prop where
  outcome :
    (s.result = .success ∧ s.resets = 0 ∧ ∀ i param, method.responseParams[i]? = some param →
      (s.outputs i).isSome ∧ s.outputs i = s.responses i ∧ (cIsParamPtr param → s.refCnt i = 1)) ∨
    (s.result = .failure ∧ s.resets = 1 ∧ (∀ i, s.outputs i = none) ∧ ∀ i, s.refCnt i = 0)
  stream : s.deletions = s.creations ∧ s.creations ≤ 1

theorem allOrNothing_run (method : Method) (id : Nat) (calls : ClientCalls σ V) (args : Nat → V) (world : σ)
    (result : FfResult) : AllOrNothing method ((dumpClientMethod method id).run calls args world result) := by
  unfold ClientFunction.run
  rw [body_dumpClientMethod]
  rcases hcreate : calls.createRequestStream world with ⟨created, world'⟩
  cases created with
  | false =>
    -- no stream: nothing was done
    rw [Block.run_cons_of_jump (t := ⟨world', false, fun _ => none, fun _ => 0, fun _ => none, .failure, 0, 0, 0⟩)
      (by simp only [ClientStmt.exec, ClientState.enter, hcreate])]
    rw [run_exit]
    exact ⟨Or.inr ⟨rfl, rfl, fun _ => rfl, fun i => by simp [unreferenced]⟩, rfl, Nat.zero_le _⟩
  | true =>
    let s₁ : ClientState σ V := ⟨world', true, fun _ => none, fun _ => 0, fun _ => none, result, 1, 0, 0⟩
    have hs₁ : s₁.Fetching method.responseParams := ⟨fun _ => rfl, fun i => by simp [s₁], rfl, rfl, rfl, rfl⟩
    rw [Block.run_cons_of_next (t := s₁) (by simp only [ClientStmt.exec, ClientState.enter, hcreate]; rfl)]
    obtain ⟨hfetch, hreports⟩ := Block.run_rule (P := Fetching method.responseParams) (Q := Reports)
      (fun stmt hstmt s hs => fetching_exec calls (dumpClientMethod method id).methodId args hstmt hs) hs₁
      (fun hnil => by unfold fetchStmts at hnil; split at hnil <;> simp at hnil)
    rcases hrun : Block.run (ClientStmt.exec calls (dumpClientMethod method id).methodId args) (fetchStmts method) s₁
      with ⟨jump, t⟩
    rw [hrun] at hfetch hreports
    dsimp only at hfetch hreports
    cases jump with
    | true =>
      rw [Block.run_append_of_jump hrun]
      rw [run_exit]
      have hfail : t.result = .failure := hreports
      refine ⟨Or.inr ⟨hfail, ?_, hfetch.outputs, fun i => ?_⟩, ?_, ?_⟩
      · simp [hfetch.resets, hfail]
      · show (if isPtrAt method.responseParams 0 i ∧ (t.responses i).isSome then t.refCnt i - 1 else t.refCnt i) = 0
        rw [hfetch.refCnt i]
        split <;> rfl
      · simp [unreferenced, hfetch.deletions, hfetch.creations, hfetch.stream]
      · exact Nat.le_of_eq hfetch.creations
    | false =>
      rw [Block.run_append_of_next hrun, run_assignStmts]
      rw [run_exit]
      have hsucc : t.result = .success := hreports
      refine ⟨Or.inl ⟨hsucc, ?_, fun i param hparam => ?_⟩, ?_, ?_⟩
      · simp [assigned, hfetch.resets, hsucc]
      · have hi : i < method.responseParams.length := (List.getElem?_eq_some_iff.1 hparam).1
        have hsome := isSome_of_run_fetchStmts hrun i hi
        have hout : (t.assigned method.responseParams 0).outputs i = t.responses i := if_pos ⟨Nat.zero_le i, by omega⟩
        refine ⟨by rw [← hout] at hsome; exact hsome, hout, fun hptr => ?_⟩
        show (if isPtrAt method.responseParams 0 i ∧ (t.responses i).isSome
          then (if isPtrAt method.responseParams 0 i then t.refCnt i + 1 else t.refCnt i) - 1 else _) = 1
        rw [hfetch.refCnt i, isPtrAt_zero hparam]
        simp [hptr, hsome]
      · simp [unreferenced, assigned, hfetch.deletions, hfetch.creations, hfetch.stream]
      · exact Nat.le_of_eq hfetch.creations

end ClientState

/-! ## The method handler -/

namespace HandlerState

/-- The local is of a pointer type. -/
def isPtr (method : Method) : HandlerLocal → Bool
  | .request i => isPtrAt method.requestParams 0 i
  | .response i => isPtrAt method.responseParams 0 i

/-- **The body gives nothing up.** -/
theorem released_run_body (calls : ServerCalls σ V) (f : HandlerFunction) (stmts : List HandlerStmt)
    (s : HandlerState σ V) : (Block.run (HandlerStmt.exec calls f) stmts s).2.released = s.released := by
  have hstep : ∀ stmt ∈ stmts, ∀ t : HandlerState σ V, t.released = s.released →
      (HandlerStmt.exec calls f stmt t).2.released = s.released ∧ True := by
    intro stmt _ t ht
    refine ⟨?_, trivial⟩
    rw [← ht]
    cases stmt with
    | unserialize i param =>
      simp only [HandlerStmt.exec]
      split <;> rfl
    | callService => rfl
    | writeEmptyByte => rfl
    | serialize i param =>
      simp only [HandlerStmt.exec]
      split <;> rfl
  exact (Block.run_rule (P := fun t : HandlerState σ V => t.released = s.released) (Q := fun _ _ => True) hstep rfl
    (fun _ => trivial)).1

/-- **Behind the label every local that is not `NULL` is given up.** -/
theorem foldl_release : ∀ (ls : List HandlerLocal) (s : HandlerState σ V),
    ls.foldl release s = { s with released := s.released ++ ls.filter (fun l => (s.get l).isSome) }
  | [], s => by simp
  | l :: ls, s => by
    rw [List.foldl_cons, foldl_release ls]
    unfold release
    split
    · rename_i hsome
      have hrest : ls.filter (fun l' => (HandlerState.get { s with released := s.released ++ [l] } l').isSome)
          = ls.filter (fun l' => (s.get l').isSome) := by
        apply List.filter_congr
        intro l' _
        cases l' <;> rfl
      simp only [hrest, List.filter_cons, hsome, if_true, List.append_assoc, List.singleton_append]
    · rename_i hnone
      simp only [List.filter_cons, hnone, Bool.false_eq_true, if_false]

theorem mem_ptrLocals {params : List Param} {f : Nat → HandlerLocal} {l : HandlerLocal} {k : Nat} :
    l ∈ (params.zipIdx k).flatMap (fun (param, i) => if cIsParamPtr param then [f i] else []) ↔
      ∃ i, l = f i ∧ isPtrAt params k i = true := by
  induction params generalizing k with
  | nil => simp [isPtrAt_nil]
  | cons param params ih =>
    rw [List.zipIdx_cons, List.flatMap_cons, List.mem_append, ih]
    constructor
    · rintro (h | ⟨i, rfl, hi⟩)
      · cases hp : cIsParamPtr param with
        | true =>
          simp only [hp, if_true, List.mem_singleton] at h
          exact ⟨k, h, by rw [isPtrAt_cons, if_pos rfl, hp]⟩
        | false => simp [hp] at h
      · have hne : i ≠ k := by
          rintro rfl
          simp [isPtrAt] at hi
        exact ⟨i, rfl, by rw [isPtrAt_cons, if_neg hne, hi]⟩
    · rintro ⟨i, rfl, hi⟩
      rw [isPtrAt_cons] at hi
      by_cases hik : i = k
      · subst hik
        rw [if_pos rfl] at hi
        left
        simp [hi]
      · rw [if_neg hik] at hi
        exact Or.inr ⟨i, rfl, hi⟩

theorem nodup_ptrLocals {f : Nat → HandlerLocal} (hf : Function.Injective f) : ∀ (params : List Param) (k : Nat),
    ((params.zipIdx k).flatMap (fun (param, i) => if cIsParamPtr param then [f i] else [])).Nodup
  | [], _ => List.nodup_nil
  | param :: params, k => by
    rw [List.zipIdx_cons, List.flatMap_cons]
    dsimp only
    cases cIsParamPtr param with
    | false => exact nodup_ptrLocals hf params (k + 1)
    | true =>
      rw [if_pos rfl, List.singleton_append, List.nodup_cons]
      refine ⟨fun hmem => ?_, nodup_ptrLocals hf params (k + 1)⟩
      obtain ⟨i, hi, hptr⟩ := mem_ptrLocals.1 hmem
      rw [← hf hi] at hptr
      simp [isPtrAt] at hptr

theorem mem_exit {method : Method} {l : HandlerLocal} :
    l ∈ (dumpServerMethodHandler method).exit ↔ isPtr method l = true := by
  unfold dumpServerMethodHandler
  rw [List.mem_append, mem_ptrLocals, mem_ptrLocals]
  cases l <;> simp [isPtr]

theorem nodup_exit (method : Method) : (dumpServerMethodHandler method).exit.Nodup := by
  unfold dumpServerMethodHandler
  apply List.Nodup.append
  · exact nodup_ptrLocals (fun _ _ h => HandlerLocal.request.inj h) _ _
  · exact nodup_ptrLocals (fun _ _ h => HandlerLocal.response.inj h) _ _
  · intro l h₁ h₂
    obtain ⟨i, rfl, -⟩ := mem_ptrLocals.1 h₁
    obtain ⟨j, hj, -⟩ := mem_ptrLocals.1 h₂
    cases hj

/-- **Balanced references**: the handler gives up each pointer it decoded or got from the service, once, and nothing
else. -/
def Balanced (method : Method) (s : HandlerState σ V) : Prop :=
  ∀ l, s.released.count l = if isPtr method l ∧ (s.get l).isSome then 1 else 0

theorem balanced_run (method : Method) (calls : ServerCalls σ V) (world : σ) (result : FfResult) :
    Balanced method ((dumpServerMethodHandler method).run calls world result) := by
  intro l
  unfold HandlerFunction.run
  rw [foldl_release, released_run_body]
  generalize (Block.run (HandlerStmt.exec calls (dumpServerMethodHandler method)) (dumpServerMethodHandler method).body
    (enter world result)).2 = t
  have hget : HandlerState.get { t with released := (enter world result : HandlerState σ V).released ++
      (dumpServerMethodHandler method).exit.filter (fun l => (t.get l).isSome) } l = t.get l := by
    cases l <;> rfl
  rw [hget]
  show (List.filter (fun l => (t.get l).isSome) (dumpServerMethodHandler method).exit).count l = _
  by_cases hl : isPtr method l ∧ (t.get l).isSome
  · rw [if_pos hl]
    exact List.count_eq_one_of_mem ((nodup_exit method).filter _) (List.mem_filter.2 ⟨mem_exit.2 hl.1, hl.2⟩)
  · rw [if_neg hl, List.count_eq_zero]
    intro hmem
    obtain ⟨hexit, hsome⟩ := List.mem_filter.1 hmem
    exact hl ⟨mem_exit.1 hexit, hsome⟩

end HandlerState

/-- **Results and references of the emitted code**, for every method and whatever the calls return. -/
theorem generatedCode_balanced (method : Method) (id : Nat) :
    (∀ (σ V : Type) (calls : ClientCalls σ V) (args : Nat → V) (world : σ) (result : FfResult),
      ClientState.AllOrNothing method ((dumpClientMethod method id).run calls args world result)) ∧
    ∀ (σ V : Type) (calls : ServerCalls σ V) (world : σ) (result : FfResult),
      HandlerState.Balanced method ((dumpServerMethodHandler method).run calls world result) := by
  constructor
  · intro σ V calls args world result
    exact ClientState.allOrNothing_run method id calls args world result
  · intro σ V calls world result
    exact HandlerState.balanced_run method calls world result

end Mrpc
