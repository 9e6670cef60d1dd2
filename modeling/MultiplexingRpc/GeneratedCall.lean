import MultiplexingRpc.GeneratedCleanup
import MultiplexingRpc.IntSerialize
/-!
# GeneratedCall — a call through both halves of the emitted code

A client function is run against the stream handler of the same interface over a pair of lossless streams.  The two
generators walk the parameter lists in loops of their own; here the halves meet: the service function of the method is
called once with the client's values, the client gets the values the service produced, and no byte is left over on
either side.
-/
namespace Mrpc

variable {S V : Type}

/-- `mrpc_T_serialize` and `mrpc_T_unserialize` by type: the bytes written, and the value and the rest of the stream.
What is admitted can be written and is read back. -/
structure Codecs (V : Type) where
  serialize : ParamType → V → FfResult × List UInt8
  unserialize : ParamType → List UInt8 → Option V × List UInt8
  Admits : ParamType → V → Prop
  serialize_success : ∀ {type : ParamType} {v : V}, Admits type v → (serialize type v).1 = .success
  roundTrip : ∀ {type : ParamType} {v : V}, Admits type v →
    ∀ rest, unserialize type ((serialize type v).2 ++ rest) = (some v, rest)

namespace Codecs

variable (codecs : Codecs V)

/-- The bytes of the parameters from the `k`-th on. -/
def encoded (params : List Param) (k : Nat) (vals : Nat → V) : List UInt8 :=
  (params.zipIdx k).flatMap fun (param, i) => (codecs.serialize param.type (vals i)).2

theorem encoded_cons (param : Param) (params : List Param) (k : Nat) (vals : Nat → V) :
    codecs.encoded (param :: params) k vals
      = (codecs.serialize param.type (vals k)).2 ++ codecs.encoded params (k + 1) vals := by
  simp [encoded]

/-- The values are admissible for the parameters from the `k`-th on. -/
def AdmitsAll (params : List Param) (k : Nat) (vals : Nat → V) : Prop :=
  ∀ i param, params[i]? = some param → codecs.Admits param.type (vals (k + i))

theorem admitsAll_cons {param : Param} {params : List Param} {k : Nat} {vals : Nat → V}
    (h : codecs.AdmitsAll (param :: params) k vals) :
    codecs.Admits param.type (vals k) ∧ codecs.AdmitsAll params (k + 1) vals := by
  constructor
  · exact h 0 param rfl
  · intro i p hp
    have hi := h (i + 1) p (by simpa using hp)
    rwa [show k + (i + 1) = k + 1 + i by omega] at hi

end Codecs

/-! ## The stream pair -/

/-- The server as its handlers see it: what is to be read from the stream, what was written since the last flush, what
was flushed; the service's own state, and the calls of its functions so far. -/
structure Served (S V : Type) where
  inp : List UInt8
  out : List UInt8
  sent : List UInt8
  state : S
  invocations : List (List Char × List V)

/-- The calls of a method handler over a lossless stream. -/
def serverCalls (codecs : Codecs V) (service : List Char → List V → S → (Nat → V) × S) :
    ServerCalls (Served S V) V where
  write byte w := (.success, { w with out := w.out ++ [byte] })
  read w :=
    match w.inp with
    | [] => (none, w)
    | byte :: inp => (some byte, { w with inp := inp })
  flush w := (.success, { w with out := [], sent := w.sent ++ w.out })
  serialize type v w :=
    ((codecs.serialize type v).1, { w with out := w.out ++ (codecs.serialize type v).2 })
  unserialize type w :=
    ((codecs.unserialize type w.inp).1, { w with inp := (codecs.unserialize type w.inp).2 })
  service name args w :=
    ((service name args w.state).1,
      { w with state := (service name args w.state).2, invocations := w.invocations ++ [(name, args)] })

/-- The client's end of the stream pair, with the server behind it and the results of its stream handlers. -/
structure Link (S V : Type) where
  inp : List UInt8
  out : List UInt8
  server : Served S V
  results : List FfResult

/-- The calls of a client function.  The request is with the server once it is flushed, where the stream handler reads
it and answers: before that the handler can only wait for bytes, and the client does not read. -/
def clientCalls (interface : Interface) (codecs : Codecs V) (service : List Char → List V → S → (Nat → V) × S)
    (init : FfResult) : ClientCalls (Link S V) V where
  write byte l := (.success, { l with out := l.out ++ [byte] })
  read l :=
    match l.inp with
    | [] => (none, l)
    | byte :: inp => (some byte, { l with inp := inp })
  flush l :=
    let handled := runServerStreamHandler (dumpServerStreamHandlerSource interface) (serverCalls codecs service) init
      { l.server with inp := l.server.inp ++ l.out }
    (.success,
      { l with
        inp := l.inp ++ handled.world.sent
        out := []
        server := { handled.world with sent := [] }
        results := l.results ++ [handled.result] })
  serialize type v l :=
    ((codecs.serialize type v).1, { l with out := l.out ++ (codecs.serialize type v).2 })
  unserialize type l :=
    ((codecs.unserialize type l.inp).1, { l with inp := (codecs.unserialize type l.inp).2 })
  createRequestStream l := (true, l)
  deleteStream l := l
  resetConnection l := l

/-- Nothing is under way. -/
structure Link.Idle (l : Link S V) : Prop where
  inp : l.inp = []
  out : l.out = []
  serverInp : l.server.inp = []
  serverOut : l.server.out = []
  serverSent : l.server.sent = []

/-- The request values of a call, in declared order. -/
def Method.requestValues (method : Method) (args : Nat → V) : List V :=
  (List.range method.requestParams.length).map args

/-- The variables `vars` after `n` of them, from the `k`-th on, were set to their values. -/
def decodedFrom (vals : Nat → V) (k n : Nat) (vars : Nat → Option V) : Nat → Option V := fun i =>
  if k ≤ i ∧ i < k + n then some (vals i) else vars i

theorem decodedFrom_zero (vals : Nat → V) (k : Nat) (vars : Nat → Option V) : decodedFrom vals k 0 vars = vars := by
  funext i
  exact if_neg (by omega)

theorem decodedFrom_succ (vals : Nat → V) (k n : Nat) (vars : Nat → Option V) :
    decodedFrom vals k (n + 1) vars = decodedFrom vals (k + 1) n (Function.update vars k (some (vals k))) := by
  funext i
  unfold decodedFrom
  by_cases hik : i = k
  · subst hik
    rw [if_pos (by omega), if_neg (by omega), Function.update_self]
  · have hiff : (k + 1 ≤ i ∧ i < k + 1 + n) ↔ (k ≤ i ∧ i < k + (n + 1)) := by omega
    rw [Function.update_of_ne hik, if_congr hiff rfl rfl]

/-! ## The method handler's half -/

namespace HandlerState

variable {codecs : Codecs V} (service : List Char → List V → S → (Nat → V) × S) (f : HandlerFunction)

/-- **The handler decodes what was encoded.** -/
theorem run_unserialize : ∀ (params : List Param) (k : Nat) (vals : Nat → V) (rest : List UInt8)
    (s : HandlerState (Served S V) V), codecs.AdmitsAll params k vals →
    s.world.inp = codecs.encoded params k vals ++ rest →
    ∃ t, Block.run (HandlerStmt.exec (serverCalls codecs service) f)
        ((params.zipIdx k).map (fun (param, i) => .unserialize i param)) s = (false, t) ∧
      t.world = { s.world with inp := rest } ∧ t.requests = decodedFrom vals k params.length s.requests
  | [], k, vals, rest, s, _, hinp => by
    have hinp' : s.world.inp = rest := by simpa [Codecs.encoded] using hinp
    refine ⟨s, rfl, ?_, ?_⟩
    · rw [← hinp']
    · rw [List.length_nil, decodedFrom_zero]
  | param :: params, k, vals, rest, s, hall, hinp => by
    obtain ⟨hone, hrest⟩ := codecs.admitsAll_cons hall
    rw [codecs.encoded_cons, List.append_assoc] at hinp
    let s₁ : HandlerState (Served S V) V :=
      { s with
        world := { s.world with inp := codecs.encoded params (k + 1) vals ++ rest }
        result := .success
        requests := Function.update s.requests k (some (vals k)) }
    have hstep : HandlerStmt.exec (serverCalls codecs service) f (.unserialize k param) s = (false, s₁) := by
      simp only [HandlerStmt.exec, serverCalls, hinp, codecs.roundTrip hone, s₁]
    obtain ⟨t, hrun, hworld, hrequests⟩ := run_unserialize params (k + 1) vals rest s₁ hrest rfl
    refine ⟨t, ?_, hworld, ?_⟩
    · rw [List.zipIdx_cons, List.map_cons, Block.run_cons_of_next hstep]
      exact hrun
    · rw [hrequests, List.length_cons, decodedFrom_succ]

/-- **The handler writes the responses it got from the service.** -/
theorem run_serialize : ∀ (params : List Param) (k : Nat) (vals : Nat → V) (s : HandlerState (Served S V) V),
    codecs.AdmitsAll params k vals → (∀ i, k ≤ i → i < k + params.length → s.responses i = some (vals i)) →
    ∃ t, Block.run (HandlerStmt.exec (serverCalls codecs service) f)
        ((params.zipIdx k).map (fun (param, i) => .serialize i param)) s = (false, t) ∧
      t.world = { s.world with out := s.world.out ++ codecs.encoded params k vals } ∧
      t.result = if params = [] then s.result else .success
  | [], k, vals, s, _, _ => by
    refine ⟨s, rfl, ?_, rfl⟩
    simp [Codecs.encoded]
  | param :: params, k, vals, s, hall, hresponses => by
    obtain ⟨hone, hrest⟩ := codecs.admitsAll_cons hall
    let s₁ : HandlerState (Served S V) V :=
      { s with
        world := { s.world with out := s.world.out ++ (codecs.serialize param.type (vals k)).2 }
        result := .success }
    have hk : s.responses k = some (vals k) := hresponses k (Nat.le_refl k) (by simp)
    have hstep : HandlerStmt.exec (serverCalls codecs service) f (.serialize k param) s = (false, s₁) := by
      simp [HandlerStmt.exec, serverCalls, hk, codecs.serialize_success hone, s₁]
    obtain ⟨t, hrun, hworld, hresult⟩ := run_serialize params (k + 1) vals s₁ hrest
      (fun i hle hlt => hresponses i (by omega) (by rw [List.length_cons]; omega))
    refine ⟨t, ?_, ?_, ?_⟩
    · rw [List.zipIdx_cons, List.map_cons, Block.run_cons_of_next hstep]
      exact hrun
    · rw [hworld, codecs.encoded_cons]
      simp [s₁]
    · rw [hresult, if_neg (List.cons_ne_nil _ _)]
      split <;> rfl

/-- The handler has its locals for the request parameters set to `args`. -/
theorem filterMap_decodedFrom (args : Nat → V) (n : Nat) (vars : Nat → Option V) :
    (List.range n).filterMap (decodedFrom args 0 n vars) = (List.range n).map args := by
  rw [← List.filterMap_eq_map]
  apply List.filterMap_congr
  intro i hi
  have hlt : i < n := List.mem_range.1 hi
  exact if_pos (by omega)

/-- The statements behind the call of the service function. -/
def answerStmts (method : Method) : List HandlerStmt :=
  if method.responseParams = [] then [.writeEmptyByte]
  else method.responseParams.zipIdx.map (fun (param, i) => .serialize i param)

theorem body_dumpServerMethodHandler (method : Method) :
    (dumpServerMethodHandler method).body
      = method.requestParams.zipIdx.map (fun (param, i) => .unserialize i param)
        ++ .callService :: answerStmts method := by
  unfold dumpServerMethodHandler answerStmts
  cases method.responseParams with
  | nil => simp
  | cons param params => simp

end HandlerState

/-- What the server writes for the values of the response parameters: the byte zero if there are none. -/
def responseBytes (codecs : Codecs V) (method : Method) (vals : Nat → V) : List UInt8 :=
  if method.responseParams = [] then [0] else codecs.encoded method.responseParams 0 vals

theorem HandlerState.run_answerStmts {codecs : Codecs V} (service : List Char → List V → S → (Nat → V) × S)
    (f : HandlerFunction) {method : Method} {vals : Nat → V} {s : HandlerState (Served S V) V}
    (hvals : codecs.AdmitsAll method.responseParams 0 vals)
    (hresponses : ∀ i, i < method.responseParams.length → s.responses i = some (vals i)) :
    ∃ t, Block.run (HandlerStmt.exec (serverCalls codecs service) f) (answerStmts method) s = (false, t) ∧
      t.world = { s.world with out := s.world.out ++ responseBytes codecs method vals } ∧ t.result = .success := by
  by_cases hnil : method.responseParams = []
  · unfold answerStmts responseBytes
    rw [if_pos hnil, if_pos hnil]
    exact ⟨_, rfl, rfl, rfl⟩
  · unfold answerStmts responseBytes
    rw [if_neg hnil, if_neg hnil]
    obtain ⟨t, hrun, hworld, hresult⟩ := run_serialize service f method.responseParams 0 vals s hvals
      (fun i _ hi => hresponses i (by omega))
    rw [if_neg hnil] at hresult
    exact ⟨t, hrun, hworld, hresult⟩

/-- The server after a call of the method's service function with `args`, the response being written. -/
def Served.answered (codecs : Codecs V) (service : List Char → List V → S → (Nat → V) × S) (method : Method)
    (args : Nat → V) (rest : List UInt8) (w : Served S V) : Served S V :=
  let call := service method.name (method.requestValues args) w.state
  { w with
    inp := rest
    out := w.out ++ responseBytes codecs method call.1
    state := call.2
    invocations := w.invocations ++ [(method.name, method.requestValues args)] }

/-- **A method handler answers its request.** -/
theorem run_dumpServerMethodHandler {codecs : Codecs V} {service : List Char → List V → S → (Nat → V) × S}
    {method : Method} {args : Nat → V} {w : Served S V} (rest : List UInt8) (init : FfResult)
    (hargs : codecs.AdmitsAll method.requestParams 0 args)
    (hvals : codecs.AdmitsAll method.responseParams 0 (service method.name (method.requestValues args) w.state).1)
    (hinp : w.inp = codecs.encoded method.requestParams 0 args ++ rest) :
    ((dumpServerMethodHandler method).run (serverCalls codecs service) w init).result = .success ∧
      ((dumpServerMethodHandler method).run (serverCalls codecs service) w init).world
        = w.answered codecs service method args rest := by
  unfold HandlerFunction.run
  rw [HandlerState.foldl_release, HandlerState.body_dumpServerMethodHandler]
  dsimp only
  let f := dumpServerMethodHandler method
  let call := service method.name (method.requestValues args) w.state
  obtain ⟨t, hread, hworld, hrequests⟩ := HandlerState.run_unserialize service f method.requestParams 0 args rest
    (HandlerState.enter w init) hargs hinp
  let t₁ : HandlerState (Served S V) V :=
    { t with
      world :=
        { w with
          inp := rest
          state := call.2
          invocations := w.invocations ++ [(method.name, method.requestValues args)] }
      responses := fun i => if i < method.responseParams.length then some (call.1 i) else none }
  have hcall : HandlerStmt.exec (serverCalls codecs service) f .callService t = (false, t₁) := by
    have hvalues : (List.range f.requestCnt).filterMap t.requests = method.requestValues args := by
      rw [hrequests]
      exact HandlerState.filterMap_decodedFrom args _ _
    simp only [HandlerStmt.exec, hvalues, hworld]
    rfl
  obtain ⟨u, hwrite, huworld, hresult⟩ := HandlerState.run_answerStmts service f hvals (s := t₁)
    (fun i hi => if_pos hi)
  rw [Block.run_append_of_next hread, Block.run_cons_of_next hcall, hwrite]
  exact ⟨hresult, huworld⟩

theorem toNat_ofNat_of_le {k n : Nat} (hk : k < n) (hn : n ≤ 256) : (UInt8.ofNat k).toNat = k := by
  rw [UInt8.toNat_ofNat']
  exact Nat.mod_eq_of_lt (by omega)

/-- **The stream handler calls the handler of the method the client numbered**, and flushes its answer. -/
theorem runServerStreamHandler_answers {codecs : Codecs V} {service : List Char → List V → S → (Nat → V) × S}
    {interface : Interface} (hlen : interface.methods.length ≤ 256) {k : Nat} {method : Method}
    (hk : interface.methods[k]? = some method) {args : Nat → V} {w : Served S V} (init : FfResult)
    (hargs : codecs.AdmitsAll method.requestParams 0 args)
    (hvals : codecs.AdmitsAll method.responseParams 0 (service method.name (method.requestValues args) w.state).1)
    (hinp : w.inp = UInt8.ofNat k :: codecs.encoded method.requestParams 0 args) :
    runServerStreamHandler (dumpServerStreamHandlerSource interface) (serverCalls codecs service) init w
      = ⟨.success, some k,
          { w.answered codecs service method args [] with
            out := []
            sent := w.sent ++ (w.answered codecs service method args []).out }⟩ := by
  obtain ⟨hlt, hget⟩ := List.getElem?_eq_some_iff.1 hk
  have hid : (UInt8.ofNat k).toNat = k := toNat_ofNat_of_le hlt hlen
  have hin : (UInt8.ofNat k).toNat < (dumpServerStreamHandlerSource interface).length := by
    rw [hid]
    simpa [dumpServerStreamHandlerSource] using hlt
  have hhandler : (dumpServerStreamHandlerSource interface).get ⟨(UInt8.ofNat k).toNat, hin⟩
      = dumpServerMethodHandler method := by
    simp [dumpServerStreamHandlerSource, hid, hget]
  let w₁ : Served S V := { w with inp := codecs.encoded method.requestParams 0 args }
  have hread : (serverCalls codecs service).read w = (some (UInt8.ofNat k), w₁) := by
    simp only [serverCalls, hinp, w₁]
  obtain ⟨hresult, hworld⟩ := run_dumpServerMethodHandler (w := w₁) [] init hargs hvals
    (List.append_nil _).symm
  unfold runServerStreamHandler
  simp only [hread, dif_pos hin, hhandler, hresult, hworld, ne_eq, not_true_eq_false, if_false]
  rw [hid]
  rfl

/-! ## The client function's half -/

namespace ClientState

variable {interface : Interface} {codecs : Codecs V} {service : List Char → List V → S → (Nat → V) × S}
  {init : FfResult} {methodId : UInt8} {args : Nat → V}

/-- **The client writes its arguments.** -/
theorem run_serialize : ∀ (params : List Param) (k : Nat) (s : ClientState (Link S V) V),
    codecs.AdmitsAll params k args → s.result = .success →
    Block.run (ClientStmt.exec (clientCalls interface codecs service init) methodId args)
        ((params.zipIdx k).map (fun (param, i) => .serialize i param)) s
      = (false, { s with world := { s.world with out := s.world.out ++ codecs.encoded params k args } })
  | [], k, s, _, _ => by
    simp [Block.run_nil, Codecs.encoded]
  | param :: params, k, s, hall, hresult => by
    obtain ⟨hone, hrest⟩ := codecs.admitsAll_cons hall
    let s₁ : ClientState (Link S V) V :=
      { s with world := { s.world with out := s.world.out ++ (codecs.serialize param.type (args k)).2 } }
    have hstep : ClientStmt.exec (clientCalls interface codecs service init) methodId args (.serialize k param) s
        = (false, s₁) := by
      simp [ClientStmt.exec, clientCalls, ClientState.returned, codecs.serialize_success hone, ← hresult, s₁]
    rw [List.zipIdx_cons, List.map_cons, Block.run_cons_of_next hstep, run_serialize params (k + 1) s₁ hrest hresult]
    simp [s₁, codecs.encoded_cons]

/-- **The client decodes what was encoded.** -/
theorem run_unserialize : ∀ (params : List Param) (k : Nat) (vals : Nat → V) (rest : List UInt8)
    (s : ClientState (Link S V) V), codecs.AdmitsAll params k vals → s.result = .success →
    s.world.inp = codecs.encoded params k vals ++ rest →
    ∃ t, Block.run (ClientStmt.exec (clientCalls interface codecs service init) methodId args)
        ((params.zipIdx k).map (fun (param, i) => .unserialize i param)) s = (false, t) ∧
      t.world = { s.world with inp := rest } ∧ t.result = .success ∧
      t.responses = decodedFrom vals k params.length s.responses
  | [], k, vals, rest, s, _, hresult, hinp => by
    have hinp' : s.world.inp = rest := by simpa [Codecs.encoded] using hinp
    refine ⟨s, rfl, ?_, hresult, ?_⟩
    · rw [← hinp']
    · rw [List.length_nil, decodedFrom_zero]
  | param :: params, k, vals, rest, s, hall, hresult, hinp => by
    obtain ⟨hone, hrest⟩ := codecs.admitsAll_cons hall
    rw [codecs.encoded_cons, List.append_assoc] at hinp
    let s₁ : ClientState (Link S V) V :=
      s.decoded k param (vals k) { s.world with inp := codecs.encoded params (k + 1) vals ++ rest }
    have hstep : ClientStmt.exec (clientCalls interface codecs service init) methodId args (.unserialize k param) s
        = (false, s₁) := by
      simp only [ClientStmt.exec, clientCalls, hinp, codecs.roundTrip hone, s₁]
    obtain ⟨t, hrun, hworld, htresult, hresponses⟩ := run_unserialize params (k + 1) vals rest s₁ hrest rfl rfl
    refine ⟨t, ?_, hworld, htresult, ?_⟩
    · rw [List.zipIdx_cons, List.map_cons, Block.run_cons_of_next hstep]
      exact hrun
    · rw [hresponses, List.length_cons, decodedFrom_succ]
      rfl

/-- The statements that read the response. -/
def readStmts (method : Method) : List ClientStmt :=
  if method.responseParams = [] then [.readEmptyByte]
  else method.responseParams.zipIdx.map (fun (param, i) => .unserialize i param)

theorem fetchStmts_eq (method : Method) :
    fetchStmts method = .writeMethodId ::
      (method.requestParams.zipIdx.map (fun (param, i) => .serialize i param) ++ .flush :: readStmts method) := by
  unfold fetchStmts readStmts
  cases method.responseParams with
  | nil => simp
  | cons param params => simp

variable (interface service init methodId args) in
theorem run_readStmts {method : Method} {vals : Nat → V} {s : ClientState (Link S V) V}
    (hvals : codecs.AdmitsAll method.responseParams 0 vals) (hresult : s.result = .success)
    (hinp : s.world.inp = responseBytes codecs method vals) :
    ∃ t, Block.run (ClientStmt.exec (clientCalls interface codecs service init) methodId args) (readStmts method) s
        = (false, t) ∧
      t.world = { s.world with inp := [] } ∧ t.result = .success ∧
      ∀ i, i < method.responseParams.length → t.responses i = some (vals i) := by
  unfold responseBytes at hinp
  unfold readStmts
  by_cases hnil : method.responseParams = []
  · rw [if_pos hnil] at hinp ⊢
    refine ⟨s.returned (.success, { s.world with inp := [] }), ?_, rfl, rfl, ?_⟩
    · apply Block.run_cons_of_next
      simp [ClientStmt.exec, clientCalls, hinp]
    · intro i hi
      rw [hnil] at hi
      cases hi
  · rw [if_neg hnil] at hinp ⊢
    obtain ⟨t, hrun, hworld, htresult, hresponses⟩ := run_unserialize method.responseParams 0 vals [] s hvals hresult
      (by rw [hinp, List.append_nil])
    refine ⟨t, hrun, hworld, htresult, ?_⟩
    intro i hi
    rw [hresponses]
    exact if_pos (by omega)

end ClientState

/-- The connection after the call, every byte of it being read. -/
def Link.called (codecs : Codecs V) (service : List Char → List V → S → (Nat → V) × S) (method : Method)
    (args : Nat → V) (l : Link S V) : Link S V :=
  { inp := []
    out := []
    server := { l.server.answered codecs service method args [] with out := [] }
    results := l.results ++ [.success] }

/-- **From the method id to the last response**: the whole exchange. -/
theorem ClientState.run_fetchStmts {interface : Interface} (hlen : interface.methods.length ≤ 256) {codecs : Codecs V}
    {service : List Char → List V → S → (Nat → V) × S} {k : Nat} {method : Method}
    (hk : interface.methods[k]? = some method) {args : Nat → V} {s : ClientState (Link S V) V} (hidle : s.world.Idle)
    (hargs : codecs.AdmitsAll method.requestParams 0 args)
    (hvals : codecs.AdmitsAll method.responseParams 0
      (service method.name (method.requestValues args) s.world.server.state).1) (init : FfResult) :
    ∃ t, Block.run (ClientStmt.exec (clientCalls interface codecs service init) (UInt8.ofNat k) args)
        (fetchStmts method) s = (false, t) ∧
      t.world = s.world.called codecs service method args ∧ t.result = .success ∧
      ∀ i, i < method.responseParams.length →
        t.responses i = some ((service method.name (method.requestValues args) s.world.server.state).1 i) := by
  let request := UInt8.ofNat k :: codecs.encoded method.requestParams 0 args
  let s₁ := s.returned (.success, { s.world with out := [UInt8.ofNat k] })
  have hid : ClientStmt.exec (clientCalls interface codecs service init) (UInt8.ofNat k) args .writeMethodId s
      = (false, s₁) := by
    simp [ClientStmt.exec, clientCalls, hidle.out, s₁]
  let s₂ : ClientState (Link S V) V := { s₁ with world := { s.world with out := request } }
  have hwrite : Block.run (ClientStmt.exec (clientCalls interface codecs service init) (UInt8.ofNat k) args)
      (method.requestParams.zipIdx.map (fun (param, i) => .serialize i param)) s₁ = (false, s₂) :=
    run_serialize method.requestParams 0 s₁ hargs rfl
  -- the stream handler runs when the request is flushed
  let s₃ := s₂.returned (.success,
    { s.world.called codecs service method args with
      inp := responseBytes codecs method
        (service method.name (method.requestValues args) s.world.server.state).1 })
  have hflush : ClientStmt.exec (clientCalls interface codecs service init) (UInt8.ofNat k) args .flush s₂
      = (false, s₃) := by
    have hserver := runServerStreamHandler_answers hlen hk (w := { s.world.server with inp := request }) init hargs
      hvals rfl
    simp only [ClientStmt.exec, clientCalls, s₂, hidle.serverInp, List.nil_append]
    rw [hserver]
    simp [s₃, s₂, Link.called, Served.answered, hidle.inp, hidle.serverOut, hidle.serverSent]
  obtain ⟨t, hrun, hworld, hresult, hresponses⟩ := run_readStmts interface service init (UInt8.ofNat k)
    args (s := s₃) hvals rfl rfl
  refine ⟨t, ?_, ?_, hresult, hresponses⟩
  · rw [fetchStmts_eq, Block.run_cons_of_next hid, Block.run_append_of_next hwrite, Block.run_cons_of_next hflush]
    exact hrun
  · rw [hworld]
    rfl

/-- **Both halves agree on a call**: the client function succeeded with the values the service function of the method
produced for the request values; that function was called once, and nothing is under way. -/
structure Link.Agrees (service : List Char → List V → S → (Nat → V) × S) (method : Method) (args : Nat → V)
    (l : Link S V) (t : ClientState (Link S V) V) : Prop where
  result : t.result = .success
  outputs : ∀ i, i < method.responseParams.length →
    t.outputs i = some ((service method.name (method.requestValues args) l.server.state).1 i)
  invocations : t.world.server.invocations = l.server.invocations ++ [(method.name, method.requestValues args)]
  results : t.world.results = l.results ++ [.success]
  idle : t.world.Idle

/-- **The generated halves agree on every method** of an interface whose method ids fit into their byte. -/
theorem generatedCode_agrees (interface : Interface) (hlen : interface.methods.length ≤ 256) (codecs : Codecs V)
    (service : List Char → List V → S → (Nat → V) × S) (k : Nat) (method : Method)
    (hk : interface.methods[k]? = some method) (args : Nat → V) (l : Link S V) (hidle : l.Idle)
    (hargs : codecs.AdmitsAll method.requestParams 0 args)
    (hvals : codecs.AdmitsAll method.responseParams 0
      (service method.name (method.requestValues args) l.server.state).1) (init result : FfResult) :
    ∃ f, (dumpClientSource interface)[k]? = some f ∧
      l.Agrees service method args (f.run (clientCalls interface codecs service init) args l result) := by
  refine ⟨dumpClientMethod method k, by simp [dumpClientSource, hk], ?_⟩
  let s : ClientState (Link S V) V := { ClientState.enter l result with stream := true, creations := 1 }
  have hcreate : ClientStmt.exec (clientCalls interface codecs service init) (UInt8.ofNat k) args
      .createRequestStream (.enter l result) = (false, s) := rfl
  have hid : (dumpClientMethod method k).methodId = UInt8.ofNat k := rfl
  obtain ⟨t, hrun, hworld, hresult, hresponses⟩ :=
    ClientState.run_fetchStmts hlen hk (s := s) hidle hargs hvals init
  unfold ClientFunction.run
  rw [hid, ClientState.body_dumpClientMethod, Block.run_cons_of_next hcreate, Block.run_append_of_next hrun,
    ClientState.run_assignStmts, ClientState.run_exit]
  have hexit : ClientState.exitWorld (clientCalls interface codecs service init)
      (t.assigned method.responseParams 0) = l.called codecs service method args := by
    unfold ClientState.exitWorld
    simp only [clientCalls, ite_self]
    exact hworld
  constructor
  · exact hresult
  · intro i hi
    have hout : (t.assigned method.responseParams 0).outputs i = t.responses i := if_pos (by omega)
    exact hout.trans (hresponses i hi)
  · dsimp only
    rw [hexit]
    rfl
  · dsimp only
    rw [hexit]
    rfl
  · dsimp only
    rw [hexit]
    exact ⟨rfl, rfl, rfl, rfl, hidle.serverSent⟩

/-- The codec of the type `uint32`, on a stream of its own. -/
def uint32Codecs : Codecs UInt32 where
  serialize _ v :=
    match uint32Serialize v ⟨[], []⟩ with
    | .ok (result, stream) => (result, stream.written)
    | .error _ => (.failure, [])
  unserialize _ stream :=
    let u := uint32Unserialize 0 stream
    (if u.result = .success then some u.data else none, u.stream)
  Admits type _ := type = .uint32
  serialize_success := by
    intro type v _
    obtain ⟨bytes, stream, hrun, -, -⟩ := uint32_roundTrips v ⟨[], []⟩ (by simp [OutStream.Lossless])
    simp [hrun]
  roundTrip := by
    intro type v _ rest
    obtain ⟨bytes, stream, hrun, hwrote, hread⟩ := uint32_roundTrips v ⟨[], []⟩ (by simp [OutStream.Lossless])
    have hbytes : stream.written = bytes := hwrote.written
    simp [hrun, hbytes, hread]

/-- `interface Sums { method add { request { uint32 a uint32 b } response { uint32 sum } } }`. -/
def sums : Interface where
  methods := [{
    requestParams := [⟨.uint32, false, ['a']⟩, ⟨.uint32, false, ['b']⟩]
    responseParams := [⟨.uint32, false, ['s', 'u', 'm']⟩]
    name := ['a', 'd', 'd'] }]
  name := ['s', 'u', 'm', 's']

theorem generatedCode_agrees_sums :
    ∃ f, (dumpClientSource sums)[0]? = some f ∧
      (f.run (clientCalls sums uint32Codecs (fun _ values () => (fun _ => values.sum, ())) .failure)
        (fun i => if i = 0 then 700 else 77) ⟨[], [], ⟨[], [], [], (), []⟩, []⟩ .failure).outputs 0 = some 777 := by
  obtain ⟨f, hf, hagrees⟩ := generatedCode_agrees sums (by decide) uint32Codecs
    (fun _ values () => (fun _ => values.sum, ())) 0 _ rfl (fun i => if i = 0 then 700 else 77)
    ⟨[], [], ⟨[], [], [], (), []⟩, []⟩ ⟨rfl, rfl, rfl, rfl, rfl⟩
    (by
      intro i param hi
      match i with
      | 0 => cases hi; rfl
      | 1 => cases hi; rfl
      | i + 2 => simp at hi)
    (by
      intro i param hi
      match i with
      | 0 => cases hi; rfl
      | i + 1 => simp at hi) .failure .failure
  exact ⟨f, hf, hagrees.outputs 0 (by decide)⟩

end Mrpc
