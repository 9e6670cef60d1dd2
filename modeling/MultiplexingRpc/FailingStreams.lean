import MultiplexingRpc.ContentCodec
/-!
# FailingStreams — the emitted functions on streams that fail

`GeneratedCall` runs both halves of the emitted code over lossless streams.  Here each half has a stream of its own that
fails anywhere: the reads get so many bytes, the writes take so many, the flush is done or not.  What a half has written
and made of its input by then is what this module is about.
-/
namespace Mrpc

variable {S V : Type}

/-! ## The two ends of a request stream -/

/-- A stream as one function sees it: the bytes that its reads get before one of them fails, what it has written, how many
bytes its writes take before one of them fails, whether a flush succeeds, and whether one did. -/
structure Endpoint where
  inp : List UInt8
  out : List UInt8
  room : Nat
  flushes : Bool
  flushed : Bool

namespace Endpoint

def write (e : Endpoint) (bytes : List UInt8) : FfResult × Endpoint :=
  if bytes.length ≤ e.room then (.success, { e with out := e.out ++ bytes, room := e.room - bytes.length })
  else (.failure, { e with out := e.out ++ bytes.take e.room, room := 0 })

def read (e : Endpoint) : Option UInt8 × Endpoint :=
  match e.inp with
  | [] => (none, e)
  | byte :: inp => (some byte, { e with inp := inp })

def flush (e : Endpoint) : FfResult × Endpoint :=
  if e.flushes then (.success, { e with flushed := true }) else (.failure, e)

/-- A parameter goes out, as far as its value can be written. -/
def serialize (codecs : Codecs V) (type : ParamType) (v : V) (e : Endpoint) : FfResult × Endpoint :=
  let (result, bytes) := codecs.serialize type v
  let (written, e) := e.write bytes
  (if result = .success then written else result, e)

def unserialize (codecs : Codecs V) (type : ParamType) (e : Endpoint) : Option V × Endpoint :=
  ((codecs.unserialize type e.inp).1, { e with inp := (codecs.unserialize type e.inp).2 })

/-- **A write writes all of its bytes, or fails** after some of them. -/
theorem write_spec (e : Endpoint) (bytes : List UInt8) : ∃ written room,
    (e.write bytes).2 = { e with out := e.out ++ written, room := room } ∧ written <+: bytes ∧
      ((e.write bytes).1 = .success → written = bytes) := by
  unfold write
  split
  · exact ⟨bytes, _, rfl, List.prefix_rfl, fun _ => rfl⟩
  · exact ⟨_, _, rfl, List.take_prefix _ bytes, fun h => by cases h⟩

theorem serialize_spec (codecs : Codecs V) {type : ParamType} {v : V} (h : codecs.Admits type v) (e : Endpoint) :
    e.serialize codecs type v = e.write (codecs.serialize type v).2 := by
  unfold serialize
  dsimp only
  rw [if_pos (codecs.serialize_success h)]

end Endpoint

/-- The calls of a client function on its request stream, once it is created. -/
def streamClientCalls (codecs : Codecs V) : ClientCalls Endpoint V where
  write byte e := e.write [byte]
  read e := e.read
  flush e := e.flush
  serialize type v e := e.serialize codecs type v
  unserialize type e := e.unserialize codecs type
  createRequestStream e := (true, e)
  deleteStream e := e
  resetConnection e := e

/-- A handler's request stream, with the service's own state and the calls of its functions so far. -/
structure Serving (S V : Type) where
  stream : Endpoint
  state : S
  invocations : List (List Char × List V)

/-- The calls of a method handler on its request stream. -/
def streamServerCalls (codecs : Codecs V) (service : List Char → List V → S → (Nat → V) × S) :
    ServerCalls (Serving S V) V where
  write byte w := ((w.stream.write [byte]).1, { w with stream := (w.stream.write [byte]).2 })
  read w := (w.stream.read.1, { w with stream := w.stream.read.2 })
  flush w := (w.stream.flush.1, { w with stream := w.stream.flush.2 })
  serialize type v w :=
    ((w.stream.serialize codecs type v).1, { w with stream := (w.stream.serialize codecs type v).2 })
  unserialize type w :=
    ((w.stream.unserialize codecs type).1, { w with stream := (w.stream.unserialize codecs type).2 })
  service name args w :=
    ((service name args w.state).1,
      ⟨w.stream, (service name args w.state).2, w.invocations ++ [(name, args)]⟩)

/-! ## The method handler -/

namespace HandlerState

variable {codecs : StreamCodecs V} (service : List Char → List V → S → (Nat → V) × S) (f : HandlerFunction)

/-- **From a part of a request the handler decodes all of it or jumps**; it only reads. -/
theorem run_decode : ∀ (params : List Param) (k : Nat) (vals : Nat → V) (s : HandlerState (Serving S V) V),
    codecs.AdmitsAll params k vals → s.world.stream.inp <+: codecs.encoded params k vals →
    ∃ jump t inp, Block.run (HandlerStmt.exec (streamServerCalls codecs.toCodecs service) f)
        ((params.zipIdx k).map (fun (param, i) => .unserialize i param)) s = (jump, t) ∧
      t.world = { s.world with stream := { s.world.stream with inp := inp } } ∧ (jump = true → t.result = .failure) ∧
      (jump = false → s.world.stream.inp = codecs.encoded params k vals ∧
        t.requests = decodedFrom vals k params.length s.requests)
  | [], k, vals, s, _, hle => by
    refine ⟨false, s, _, rfl, rfl, (fun h => by cases h), fun _ => ⟨List.prefix_nil.1 hle, ?_⟩⟩
    rw [List.length_nil, decodedFrom_zero]
  | param :: params, k, vals, s, hall, hle => by
    obtain ⟨hone, hrest⟩ := codecs.admitsAll_cons hall
    rw [codecs.encoded_cons] at hle
    rcases hu : codecs.unserialize param.type s.world.stream.inp with ⟨v, rest⟩
    rw [List.zipIdx_cons, List.map_cons]
    cases v with
    | none =>
      let t : HandlerState (Serving S V) V :=
        { s with world := { s.world with stream := { s.world.stream with inp := rest } }, result := .failure }
      have hstep : HandlerStmt.exec (streamServerCalls codecs.toCodecs service) f (.unserialize k param) s = (true, t) := by
        simp only [HandlerStmt.exec, streamServerCalls, Endpoint.unserialize, hu, t]
      exact ⟨true, t, rest, Block.run_cons_of_jump hstep _, rfl, fun _ => rfl, fun h => by cases h⟩
    | some v =>
      obtain ⟨rfl, more, hwhole, hmore⟩ := codecs.of_prefix hone hle hu
      let s₁ : HandlerState (Serving S V) V :=
        { s with
          world := { s.world with stream := { s.world.stream with inp := rest } }
          result := .success
          requests := Function.update s.requests k (some (vals k)) }
      have hstep : HandlerStmt.exec (streamServerCalls codecs.toCodecs service) f (.unserialize k param) s = (false, s₁) := by
        simp only [HandlerStmt.exec, streamServerCalls, Endpoint.unserialize, hu, s₁]
      obtain ⟨jump, t, inp, hrun, hworld, hfail, hnext⟩ := run_decode params (k + 1) vals s₁ hrest ⟨more, hmore⟩
      refine ⟨jump, t, inp, ?_, hworld, hfail, fun hj => ?_⟩
      · rw [Block.run_cons_of_next hstep]
        exact hrun
      · obtain ⟨hinp, hrequests⟩ := hnext hj
        have hinp : rest = codecs.encoded params (k + 1) vals := hinp
        have hnil : more = [] := by
          rw [hinp] at hmore
          exact List.append_right_eq_self.1 hmore
        constructor
        · rw [codecs.encoded_cons, ← hwhole, hnil, List.append_nil]
        · rw [hrequests, List.length_cons, decodedFrom_succ]

/-- **What the handler writes is the encoding of its responses**, or a part of it if it jumps. -/
theorem run_encode : ∀ (params : List Param) (k : Nat) (vals : Nat → V) (s : HandlerState (Serving S V) V),
    codecs.AdmitsAll params k vals → (∀ i, k ≤ i → i < k + params.length → s.responses i = some (vals i)) →
    ∃ jump t written room, Block.run (HandlerStmt.exec (streamServerCalls codecs.toCodecs service) f)
        ((params.zipIdx k).map (fun (param, i) => .serialize i param)) s = (jump, t) ∧
      t.world = { s.world with
        stream := { s.world.stream with out := s.world.stream.out ++ written, room := room } } ∧
      written <+: codecs.encoded params k vals ∧ (jump = true → t.result = .failure) ∧
      (jump = false → written = codecs.encoded params k vals)
  | [], k, vals, s, _, _ => by
    refine ⟨false, s, [], s.world.stream.room, rfl, ?_, List.nil_prefix, (fun h => by cases h), fun _ => rfl⟩
    rw [List.append_nil]
  | param :: params, k, vals, s, hall, hresponses => by
    obtain ⟨hone, hrest⟩ := codecs.admitsAll_cons hall
    have hk : s.responses k = some (vals k) := hresponses k (Nat.le_refl k) (by simp)
    obtain ⟨written, room, hwrite, hle, hsucc⟩ := s.world.stream.write_spec (codecs.serialize param.type (vals k)).2
    rw [codecs.encoded_cons, List.zipIdx_cons, List.map_cons]
    rcases hcall : s.world.stream.write (codecs.serialize param.type (vals k)).2 with ⟨result, stream⟩
    rw [hcall] at hwrite hsucc
    dsimp only at hwrite hsucc
    subst hwrite
    let s₁ : HandlerState (Serving S V) V :=
      { s with
        world := { s.world with
          stream := { s.world.stream with out := s.world.stream.out ++ written, room := room } }
        result := result }
    have hstep : HandlerStmt.exec (streamServerCalls codecs.toCodecs service) f (.serialize k param) s
        = (decide (result ≠ .success), s₁) := by
      simp only [HandlerStmt.exec, streamServerCalls, hk, Endpoint.serialize_spec codecs.toCodecs hone, hcall, s₁]
    cases result with
    | failure =>
      refine ⟨true, s₁, written, room, ?_, rfl, hle.trans (List.prefix_append _ _), fun _ => rfl, fun h => by cases h⟩
      rw [Block.run_cons_of_jump hstep]
    | success =>
      have hwritten := hsucc rfl
      subst hwritten
      obtain ⟨jump, t, written', room', hrun, hworld, hle', hfail, hwhole⟩ := run_encode params (k + 1) vals s₁ hrest
        (fun i hle hlt => hresponses i (by omega) (by rw [List.length_cons]; omega))
      refine ⟨jump, t, (codecs.serialize param.type (vals k)).2 ++ written', room', ?_, ?_, ?_, hfail, ?_⟩
      · rw [Block.run_cons_of_next hstep]
        exact hrun
      · rw [hworld, ← List.append_assoc]
      · exact (List.prefix_append_right_inj _).2 hle'
      · intro hj
        rw [hwhole hj]

theorem run_answer {method : Method} {vals : Nat → V} {s : HandlerState (Serving S V) V}
    (hvals : codecs.AdmitsAll method.responseParams 0 vals)
    (hresponses : ∀ i, i < method.responseParams.length → s.responses i = some (vals i)) :
    ∃ jump t written room, Block.run (HandlerStmt.exec (streamServerCalls codecs.toCodecs service) f) (answerStmts method) s
        = (jump, t) ∧
      t.world = { s.world with
        stream := { s.world.stream with out := s.world.stream.out ++ written, room := room } } ∧
      written <+: responseBytes codecs.toCodecs method vals ∧ (jump = true → t.result = .failure) ∧
      (jump = false → written = responseBytes codecs.toCodecs method vals) := by
  unfold answerStmts responseBytes
  by_cases hnil : method.responseParams = []
  · rw [if_pos hnil, if_pos hnil]
    obtain ⟨written, room, hwrite, hle, hsucc⟩ := s.world.stream.write_spec [0]
    rcases hcall : s.world.stream.write [0] with ⟨result, stream⟩
    rw [hcall] at hwrite hsucc
    dsimp only at hwrite hsucc
    subst hwrite
    let t : HandlerState (Serving S V) V :=
      { s with
        world := { s.world with
          stream := { s.world.stream with out := s.world.stream.out ++ written, room := room } }
        result := result }
    have hstep : HandlerStmt.exec (streamServerCalls codecs.toCodecs service) f .writeEmptyByte s
        = (decide (result ≠ .success), t) := by
      simp only [HandlerStmt.exec, streamServerCalls, hcall, t]
    cases result with
    | failure =>
      exact ⟨true, t, written, room, Block.run_cons_of_jump hstep [], rfl, hle, fun _ => rfl, fun h => by cases h⟩
    | success =>
      exact ⟨false, t, written, room, Block.run_cons_of_next hstep [], rfl, hle, (fun h => by cases h), fun _ => hsucc rfl⟩
  · rw [if_neg hnil, if_neg hnil]
    exact run_encode service f method.responseParams 0 vals s hvals fun i _ hi => hresponses i (by omega)

end HandlerState

/-- What a method handler leaves of its request: it failed before the service function; or that was called, the request
being read to its end, and the response is written as far as it is, to its end if the handler succeeded. -/
inductive Serving.Once (codecs : Codecs V) (service : List Char → List V → S → (Nat → V) × S) (method : Method)
    (args : Nat → V) (w : Serving S V) : FfResult → Serving S V → Prop where
  | unread (inp : List UInt8) : Once codecs service method args w .failure { w with stream := { w.stream with inp := inp } }
  | called (result : FfResult) (inp written : List UInt8) (room : Nat)
    (request : w.stream.inp = codecs.encoded method.requestParams 0 args)
    (response : written <+: responseBytes codecs method (service method.name (method.requestValues args) w.state).1)
    (whole : result = .success →
      written = responseBytes codecs method (service method.name (method.requestValues args) w.state).1) :
    Once codecs service method args w result
      ⟨{ w.stream with inp := inp, out := w.stream.out ++ written, room := room },
        (service method.name (method.requestValues args) w.state).2,
        w.invocations ++ [(method.name, method.requestValues args)]⟩

section Handler

variable {codecs : StreamCodecs V} {service : List Char → List V → S → (Nat → V) × S} {method : Method} {args : Nat → V}
  {w : Serving S V}

/-- **From a part of a request a method handler calls its service function once or not at all.** -/
theorem handler_once (init : FfResult) (hargs : codecs.AdmitsAll method.requestParams 0 args)
    (hvals : codecs.AdmitsAll method.responseParams 0 (service method.name (method.requestValues args) w.state).1)
    (hle : w.stream.inp <+: codecs.encoded method.requestParams 0 args) :
    let t := (dumpServerMethodHandler method).run (streamServerCalls codecs.toCodecs service) w init
    Serving.Once codecs.toCodecs service method args w t.result t.world := by
  unfold HandlerFunction.run
  rw [HandlerState.foldl_release, HandlerState.body_dumpServerMethodHandler]
  dsimp only
  let f := dumpServerMethodHandler method
  let call := service method.name (method.requestValues args) w.state
  obtain ⟨jump, t, inp, hread, hworld, hfail, hnext⟩ :=
    HandlerState.run_decode service f method.requestParams 0 args (.enter w init) hargs hle
  cases jump with
  | true =>
    rw [Block.run_append_of_jump hread, hworld, hfail rfl]
    exact .unread inp
  | false =>
    obtain ⟨hrequest, hrequests⟩ := hnext rfl
    have hvalues : (List.range f.requestCnt).filterMap t.requests = method.requestValues args := by
      rw [hrequests]
      exact HandlerState.filterMap_decodedFrom args _ _
    let t₁ : HandlerState (Serving S V) V :=
      { t with
        world := ⟨{ w.stream with inp := inp }, call.2, w.invocations ++ [(method.name, method.requestValues args)]⟩
        responses := fun i => if i < method.responseParams.length then some (call.1 i) else none }
    have hcall : HandlerStmt.exec (streamServerCalls codecs.toCodecs service) f .callService t = (false, t₁) := by
      simp only [HandlerStmt.exec, hvalues, streamServerCalls, hworld]
      rfl
    obtain ⟨jump, u, written, room, hwrite, huworld, hle', hfail', hwhole⟩ :=
      HandlerState.run_answer service f hvals (s := t₁) (fun i hi => if_pos hi)
    rw [Block.run_append_of_next hread, Block.run_cons_of_next hcall, hwrite]
    dsimp only
    rw [huworld]
    refine .called u.result inp written room hrequest hle' fun hsucc => hwhole ?_
    cases jump with
    | false => rfl
    | true => cases (hfail' rfl).symm.trans hsucc

/-- What a stream handler leaves of its request: no service function was called, and nothing written; or that of the
method was, the request being read to its end, and the response is written as far as it is, to its end if it is flushed. -/
inductive Serving.Handled (codecs : Codecs V) (service : List Char → List V → S → (Nat → V) × S) (method : Method)
    (k : Nat) (args : Nat → V) (w : Serving S V) (h : StreamHandled (Serving S V)) : Prop where
  | unread (invocations : h.world.invocations = w.invocations) (out : h.world.stream.out = w.stream.out)
    (flushed : h.world.stream.flushed = w.stream.flushed)
  | called (entry : h.entry = some k)
    (invocations : h.world.invocations = w.invocations ++ [(method.name, method.requestValues args)])
    (request : w.stream.inp = UInt8.ofNat k :: codecs.encoded method.requestParams 0 args) (written : List UInt8)
    (out : h.world.stream.out = w.stream.out ++ written)
    (response : written <+: responseBytes codecs method (service method.name (method.requestValues args) w.state).1)
    (flushed : h.world.stream.flushed = true → w.stream.flushed = true ∨
      written = responseBytes codecs method (service method.name (method.requestValues args) w.state).1)

/-- **From a part of a request the stream handler calls the method's service function once or not at all.** -/
theorem streamHandler_once {interface : Interface} (hlen : interface.methods.length ≤ 256) {k : Nat}
    (hk : interface.methods[k]? = some method) (init : FfResult)
    (hargs : codecs.AdmitsAll method.requestParams 0 args)
    (hvals : codecs.AdmitsAll method.responseParams 0 (service method.name (method.requestValues args) w.state).1)
    (hle : w.stream.inp <+: UInt8.ofNat k :: codecs.encoded method.requestParams 0 args) :
    Serving.Handled codecs.toCodecs service method k args w (runServerStreamHandler
      (dumpServerStreamHandlerSource interface) (streamServerCalls codecs.toCodecs service) init w) := by
  obtain ⟨hlt, hget⟩ := List.getElem?_eq_some_iff.1 hk
  have hid : (UInt8.ofNat k).toNat = k := toNat_ofNat_of_le hlt hlen
  have hin : (UInt8.ofNat k).toNat < (dumpServerStreamHandlerSource interface).length := by
    rw [hid]
    simpa [dumpServerStreamHandlerSource] using hlt
  have hhandler : (dumpServerStreamHandlerSource interface).get ⟨(UInt8.ofNat k).toNat, hin⟩
      = dumpServerMethodHandler method := by
    simp [dumpServerStreamHandlerSource, hid, hget]
  generalize hh : runServerStreamHandler (dumpServerStreamHandlerSource interface)
    (streamServerCalls codecs.toCodecs service) init w = h
  cases hinp : w.stream.inp with
  | nil =>
    have hread : (streamServerCalls codecs.toCodecs service).read w = (none, w) := by
      simp only [streamServerCalls, Endpoint.read, hinp]
    simp only [runServerStreamHandler, hread] at hh
    subst hh
    exact .unread rfl rfl rfl
  | cons byte inp =>
    rw [hinp] at hle
    obtain ⟨rfl, hle'⟩ := List.cons_prefix_cons.1 hle
    let w₁ : Serving S V := { w with stream := { w.stream with inp := inp } }
    have hread : (streamServerCalls codecs.toCodecs service).read w = (some (UInt8.ofNat k), w₁) := by
      simp only [streamServerCalls, Endpoint.read, hinp, w₁]
    have honce := handler_once (w := w₁) init hargs hvals hle'
    simp only [runServerStreamHandler, hread, dif_pos hin, hhandler] at hh
    rw [hid] at hh
    generalize (dumpServerMethodHandler method).run (streamServerCalls codecs.toCodecs service) w₁ init = t at honce hh
    obtain ⟨world, requests, responses, result, released⟩ := t
    cases honce with
    | unread inp' =>
      rw [if_pos (by simp)] at hh
      subst hh
      exact .unread rfl rfl rfl
    | called _ inp' written room hrequest hresponse hwhole =>
      have hrequest : w.stream.inp = UInt8.ofNat k :: codecs.encoded method.requestParams 0 args := by
        rw [hinp]
        exact congrArg _ hrequest
      cases result with
      | failure =>
        rw [if_pos (by simp)] at hh
        subst hh
        exact .called rfl rfl hrequest written rfl hresponse Or.inl
      | success =>
        rw [if_neg (by simp)] at hh
        subst hh
        have hflush : ∀ e : Endpoint, e.flush.2.out = e.out := fun e => by
          unfold Endpoint.flush
          split <;> rfl
        exact .called rfl rfl hrequest written (hflush _) hresponse fun _ => Or.inr (hwhole rfl)

end Handler

/-! ## The client function -/

namespace ClientState

variable (codecs : StreamCodecs V) (methodId : UInt8) (args : Nat → V)

/-- **What the client writes is the encoding of its arguments**, or a part of it if it jumps. -/
theorem run_encode : ∀ (params : List Param) (k : Nat) (s : ClientState Endpoint V), codecs.AdmitsAll params k args →
    ∃ jump t written room, Block.run (ClientStmt.exec (streamClientCalls codecs.toCodecs) methodId args)
        ((params.zipIdx k).map (fun (param, i) => .serialize i param)) s = (jump, t) ∧
      t.world = { s.world with out := s.world.out ++ written, room := room } ∧ written <+: codecs.encoded params k args ∧
      (jump = false → written = codecs.encoded params k args)
  | [], k, s, _ => ⟨false, s, [], s.world.room, rfl, (by rw [List.append_nil]), List.nil_prefix, fun _ => rfl⟩
  | param :: params, k, s, hall => by
    obtain ⟨hone, hrest⟩ := codecs.admitsAll_cons hall
    obtain ⟨written, room, hwrite, hle, hsucc⟩ := s.world.write_spec (codecs.serialize param.type (args k)).2
    rw [codecs.encoded_cons, List.zipIdx_cons, List.map_cons]
    rcases hcall : s.world.write (codecs.serialize param.type (args k)).2 with ⟨result, stream⟩
    rw [hcall] at hwrite hsucc
    dsimp only at hwrite hsucc
    subst hwrite
    let s₁ := s.returned (result, { s.world with out := s.world.out ++ written, room := room })
    have hstep : ClientStmt.exec (streamClientCalls codecs.toCodecs) methodId args (.serialize k param) s
        = (decide (result ≠ .success), s₁) := by
      simp only [ClientStmt.exec, streamClientCalls, Endpoint.serialize_spec codecs.toCodecs hone, hcall, s₁]
    cases result with
    | failure =>
      exact ⟨true, s₁, written, room, Block.run_cons_of_jump hstep _, rfl, hle.trans (List.prefix_append _ _),
        fun h => by cases h⟩
    | success =>
      have hwritten := hsucc rfl
      subst hwritten
      obtain ⟨jump, t, written', room', hrun, hworld, hle', hwhole⟩ := run_encode params (k + 1) s₁ hrest
      refine ⟨jump, t, (codecs.serialize param.type (args k)).2 ++ written', room', ?_, ?_, ?_, fun hj => by rw [hwhole hj]⟩
      · rw [Block.run_cons_of_next hstep]
        exact hrun
      · rw [hworld, ← List.append_assoc]
        rfl
      · exact (List.prefix_append_right_inj _).2 hle'

/-- **From a part of a response the client decodes all of it or jumps**; it only reads. -/
theorem run_decode : ∀ (params : List Param) (k : Nat) (s : ClientState Endpoint V),
    ∃ jump t inp, Block.run (ClientStmt.exec (streamClientCalls codecs.toCodecs) methodId args)
        ((params.zipIdx k).map (fun (param, i) => .unserialize i param)) s = (jump, t) ∧
      t.world = { s.world with inp := inp } ∧
      ∀ vals, codecs.AdmitsAll params k vals → s.world.inp <+: codecs.encoded params k vals → jump = false →
        s.world.inp = codecs.encoded params k vals ∧ t.responses = decodedFrom vals k params.length s.responses
  | [], k, s => by
    refine ⟨false, s, _, rfl, rfl, fun vals _ hle _ => ⟨List.prefix_nil.1 hle, ?_⟩⟩
    rw [List.length_nil, decodedFrom_zero]
  | param :: params, k, s => by
    rcases hu : codecs.unserialize param.type s.world.inp with ⟨v, rest⟩
    rw [List.zipIdx_cons, List.map_cons]
    cases v with
    | none =>
      have hstep : ClientStmt.exec (streamClientCalls codecs.toCodecs) methodId args (.unserialize k param) s
          = (true, s.returned (.failure, { s.world with inp := rest })) := by
        simp only [ClientStmt.exec, streamClientCalls, Endpoint.unserialize, hu]
      exact ⟨true, _, rest, Block.run_cons_of_jump hstep _, rfl, fun vals _ _ h => by cases h⟩
    | some v =>
      let s₁ : ClientState Endpoint V := s.decoded k param v { s.world with inp := rest }
      have hstep : ClientStmt.exec (streamClientCalls codecs.toCodecs) methodId args (.unserialize k param) s
          = (false, s₁) := by
        simp only [ClientStmt.exec, streamClientCalls, Endpoint.unserialize, hu, s₁]
      obtain ⟨jump, t, inp, hrun, hworld, hnext⟩ := run_decode params (k + 1) s₁
      refine ⟨jump, t, inp, ?_, hworld, fun vals hall hle hj => ?_⟩
      · rw [Block.run_cons_of_next hstep]
        exact hrun
      · obtain ⟨hone, hrest⟩ := codecs.admitsAll_cons hall
        rw [codecs.encoded_cons] at hle
        obtain ⟨rfl, more, hwhole, hmore⟩ := codecs.of_prefix hone hle hu
        obtain ⟨hinp, hresponses⟩ := hnext vals hrest ⟨more, hmore⟩ hj
        have hinp : rest = codecs.encoded params (k + 1) vals := hinp
        have hnil : more = [] := by
          rw [hinp] at hmore
          exact List.append_right_eq_self.1 hmore
        constructor
        · rw [codecs.encoded_cons, ← hwhole, hnil, List.append_nil]
        · rw [hresponses, List.length_cons, decodedFrom_succ]
          rfl

theorem run_read (method : Method) (s : ClientState Endpoint V) :
    ∃ jump t inp, Block.run (ClientStmt.exec (streamClientCalls codecs.toCodecs) methodId args) (readStmts method) s
        = (jump, t) ∧
      t.world = { s.world with inp := inp } ∧
      ∀ vals, codecs.AdmitsAll method.responseParams 0 vals →
        s.world.inp <+: responseBytes codecs.toCodecs method vals → jump = false →
        s.world.inp = responseBytes codecs.toCodecs method vals ∧
          ∀ i, i < method.responseParams.length → t.responses i = some (vals i) := by
  unfold readStmts responseBytes
  by_cases hnil : method.responseParams = []
  · rw [if_pos hnil]
    cases hinp : s.world.inp with
    | nil =>
      have hstep : ClientStmt.exec (streamClientCalls codecs.toCodecs) methodId args .readEmptyByte s
          = (true, s.returned (.failure, { s.world with inp := [] })) := by
        simp only [ClientStmt.exec, streamClientCalls, Endpoint.read, hinp]
        rw [← hinp]
      exact ⟨true, _, [], Block.run_cons_of_jump hstep [], rfl, fun vals _ _ h => by cases h⟩
    | cons byte inp =>
      by_cases hbyte : byte = 0
      · have hstep : ClientStmt.exec (streamClientCalls codecs.toCodecs) methodId args .readEmptyByte s
            = (false, s.returned (.success, { s.world with inp := inp })) := by
          simp [ClientStmt.exec, streamClientCalls, Endpoint.read, hinp, hbyte]
        refine ⟨false, _, inp, Block.run_cons_of_next hstep [], rfl, fun vals _ hle _ => ?_⟩
        rw [if_pos hnil] at hle ⊢
        obtain ⟨rfl, hle'⟩ := List.cons_prefix_cons.1 hle
        rw [List.prefix_nil.1 hle']
        refine ⟨rfl, fun i hi => ?_⟩
        rw [hnil] at hi
        cases hi
      · have hstep : ClientStmt.exec (streamClientCalls codecs.toCodecs) methodId args .readEmptyByte s
            = (true, s.returned (.failure, { s.world with inp := inp })) := by
          simp [ClientStmt.exec, streamClientCalls, Endpoint.read, hinp, hbyte]
        exact ⟨true, _, inp, Block.run_cons_of_jump hstep [], rfl, fun vals _ _ h => by cases h⟩
  · rw [if_neg hnil]
    obtain ⟨jump, t, inp, hrun, hworld, hnext⟩ := run_decode codecs methodId args method.responseParams 0 s
    refine ⟨jump, t, inp, hrun, hworld, fun vals hall hle hj => ?_⟩
    rw [if_neg hnil] at hle ⊢
    obtain ⟨hinp, hresponses⟩ := hnext vals hall hle hj
    refine ⟨hinp, fun i hi => ?_⟩
    rw [hresponses]
    exact if_pos (by omega)

variable {codecs args}

/-- What a client function has done: its request is written as far as it is; and if it did not jump, it has read the
response to its end, whatever response its stream began with. -/
structure Fetched (codecs : StreamCodecs V) (method : Method) (k : Nat) (args : Nat → V) (inp : List UInt8) (jump : Bool)
    (t : ClientState Endpoint V) : Prop where
  out : t.world.out <+: UInt8.ofNat k :: codecs.encoded method.requestParams 0 args
  responses : jump = false → ∀ vals, codecs.AdmitsAll method.responseParams 0 vals →
    inp <+: responseBytes codecs.toCodecs method vals → inp = responseBytes codecs.toCodecs method vals ∧
      ∀ i, i < method.responseParams.length → t.responses i = some (vals i)

/-- What was written before a jump. -/
theorem Fetched.of_jump {method : Method} {k : Nat} {inp : List UInt8} {t : ClientState Endpoint V}
    (h : t.world.out <+: UInt8.ofNat k :: codecs.encoded method.requestParams 0 args) :
    Fetched codecs method k args inp true t := ⟨h, fun h => by cases h⟩

theorem run_fetch {method : Method} (k : Nat) {s : ClientState Endpoint V}
    (hargs : codecs.AdmitsAll method.requestParams 0 args) (hout : s.world.out = []) :
    ∃ jump t, Block.run (ClientStmt.exec (streamClientCalls codecs.toCodecs) (UInt8.ofNat k) args) (fetchStmts method) s
        = (jump, t) ∧ Fetched codecs method k args s.world.inp jump t := by
  obtain ⟨written, room, hwrite, hle, hsucc⟩ := s.world.write_spec [UInt8.ofNat k]
  rcases hcall : s.world.write [UInt8.ofNat k] with ⟨result, stream⟩
  rw [hcall] at hwrite hsucc
  dsimp only at hwrite hsucc
  rw [hout, List.nil_append] at hwrite
  subst hwrite
  let s₁ := s.returned (result, { s.world with out := written, room := room })
  have hid : ClientStmt.exec (streamClientCalls codecs.toCodecs) (UInt8.ofNat k) args .writeMethodId s
      = (decide (result ≠ .success), s₁) := by
    simp only [ClientStmt.exec, streamClientCalls, hcall, s₁]
  rw [fetchStmts_eq]
  cases result with
  | failure =>
    exact ⟨true, s₁, Block.run_cons_of_jump hid _, .of_jump (hle.trans (List.cons_prefix_cons.2 ⟨rfl, List.nil_prefix⟩))⟩
  | success =>
    have hwritten := hsucc rfl
    subst hwritten
    rw [Block.run_cons_of_next hid]
    obtain ⟨jump, t, written, room', hrun, hworld, hle₁, -⟩ := run_encode codecs (UInt8.ofNat k) args
      method.requestParams 0 s₁ hargs
    have hrequest : t.world.out <+: UInt8.ofNat k :: codecs.encoded method.requestParams 0 args := by
      rw [hworld]
      exact List.cons_prefix_cons.2 ⟨rfl, hle₁⟩
    cases jump with
    | true => exact ⟨true, t, Block.run_append_of_jump hrun _, .of_jump hrequest⟩
    | false =>
      rw [Block.run_append_of_next hrun]
      cases hflushes : t.world.flushes with
      | false =>
        have hflush : ClientStmt.exec (streamClientCalls codecs.toCodecs) (UInt8.ofNat k) args .flush t
            = (true, t.returned (.failure, t.world)) := by
          simp [ClientStmt.exec, streamClientCalls, Endpoint.flush, hflushes]
        exact ⟨true, _, Block.run_cons_of_jump hflush _, .of_jump hrequest⟩
      | true =>
        let u := t.returned (.success, { t.world with flushed := true })
        have hflush : ClientStmt.exec (streamClientCalls codecs.toCodecs) (UInt8.ofNat k) args .flush t = (false, u) := by
          simp [ClientStmt.exec, streamClientCalls, Endpoint.flush, hflushes, u]
        rw [Block.run_cons_of_next hflush]
        obtain ⟨jump, v, inp, hread, hworld', hresponses⟩ := run_read codecs (UInt8.ofNat k) args method u
        refine ⟨jump, v, hread, ⟨?_, fun hj vals hvals hle => ?_⟩⟩
        · rw [hworld']
          exact hrequest
        · have hsame : u.world.inp = s.world.inp := by
            show t.world.inp = s.world.inp
            rw [hworld]
            rfl
          rw [hsame] at hresponses
          exact hresponses vals hvals hle hj

/-- A fetching part that jumped left `FF_FAILURE`. -/
theorem reports_fetch {method : Method} (k : Nat) {s : ClientState Endpoint V} (h : s.Fetching method.responseParams)
    {jump : Bool} {t : ClientState Endpoint V}
    (hrun : Block.run (ClientStmt.exec (streamClientCalls codecs.toCodecs) (UInt8.ofNat k) args) (fetchStmts method) s
      = (jump, t)) : Reports jump t := by
  have hreports := (Block.run_rule (P := Fetching method.responseParams) (Q := Reports)
    (fun stmt hstmt s hs => fetching_exec (streamClientCalls codecs.toCodecs) (UInt8.ofNat k) args hstmt hs) h
    (fun hnil => by rw [fetchStmts_eq] at hnil; cases hnil)).2
  rwa [hrun] at hreports

/-- **A call of a client function on its stream**, as far as it gets: it has written a part of its request, and if it
succeeds it has read a response to its end and returns what that says. -/
theorem run_client {method : Method} (k : Nat) (hargs : codecs.AdmitsAll method.requestParams 0 args) {e : Endpoint}
    (hout : e.out = []) (result : FfResult) :
    let t := (dumpClientMethod method k).run (streamClientCalls codecs.toCodecs) args e result
    t.world.out <+: UInt8.ofNat k :: codecs.encoded method.requestParams 0 args ∧
    (t.result = .success → ∀ vals, codecs.AdmitsAll method.responseParams 0 vals →
      e.inp <+: responseBytes codecs.toCodecs method vals → e.inp = responseBytes codecs.toCodecs method vals ∧
        ∀ i, i < method.responseParams.length → t.outputs i = some (vals i)) := by
  dsimp only
  have hexit : ∀ s : ClientState Endpoint V, exitWorld (streamClientCalls codecs.toCodecs) s = s.world := fun s => by
    simp [exitWorld, streamClientCalls]
  have hid : (dumpClientMethod method k).methodId = UInt8.ofNat k := rfl
  unfold ClientFunction.run
  rw [run_exit, hid, body_dumpClientMethod]
  dsimp only
  rw [hexit]
  let s : ClientState Endpoint V := ⟨e, true, fun _ => none, fun _ => 0, fun _ => none, result, 1, 0, 0⟩
  have hs : s.Fetching method.responseParams := ⟨fun _ => rfl, fun i => by simp [s], rfl, rfl, rfl, rfl⟩
  have hstep : ClientStmt.exec (streamClientCalls codecs.toCodecs) (UInt8.ofNat k) args .createRequestStream
      (.enter e result) = (false, s) := rfl
  obtain ⟨jump, t, hrun, hfetched⟩ := run_fetch (s := s) k hargs hout
  have hreports := reports_fetch k hs hrun
  rw [Block.run_cons_of_next hstep]
  cases jump with
  | true =>
    rw [Block.run_append_of_jump hrun]
    refine ⟨hfetched.out, fun hsucc => ?_⟩
    have hfail : t.result = .failure := hreports
    cases hfail.symm.trans hsucc
  | false =>
    rw [Block.run_append_of_next hrun, run_assignStmts]
    refine ⟨hfetched.out, fun _ vals hvals hle => ?_⟩
    obtain ⟨hwhole, hresponses⟩ := hfetched.responses rfl vals hvals hle
    refine ⟨hwhole, fun i hi => ?_⟩
    have hassigned : (t.assigned method.responseParams 0).outputs i = t.responses i := if_pos (by omega)
    exact hassigned.trans (hresponses i hi)

end ClientState

theorem responseBytes_ne_nil (codecs : StreamCodecs V) {method : Method} {vals : Nat → V}
    (h : codecs.AdmitsAll method.responseParams 0 vals) : responseBytes codecs.toCodecs method vals ≠ [] := by
  unfold responseBytes
  split
  · exact List.cons_ne_nil 0 []
  · rename_i hne
    exact codecs.encoded_ne_nil hne h

end Mrpc
