import MultiplexingRpc.Interface
import MultiplexingRpc.Lib.Block
/-!
# GeneratedCode — what the interface compiler emits (`c_client_generator.c`, `c_server_generator.c`)

For every method the compiler emits a client function and a server method handler, and for the interface a stream
handler that reads the method id and picks the method handler from a table.  The emitted C is modelled by its
statements, in the order in which the `dump_*` functions walk the parameter lists, together with what a statement does.

Every emitted function has one label, `end`: a call that fails jumps there, and what follows the label is executed on
every path.  A parameter is named by its position, as each is a C variable of its own; the locals `response_*` and
`request_*` of a pointer type start as `NULL`.  The functions that the emitted code calls are a parameter (`Calls`):
each may fail, and `mrpc_T_unserialize` sets its output exactly when it succeeds.
-/
namespace Mrpc

variable {σ V : Type}

/-- What the emitted code calls, over the state `σ` of everything outside it, with parameter values `V`. -/
structure Calls (σ V : Type) where
  write : UInt8 → σ → FfResult × σ
  read : σ → Option UInt8 × σ
  flush : σ → FfResult × σ
  serialize : ParamType → V → σ → FfResult × σ
  unserialize : ParamType → σ → Option V × σ

/-- What an emitted client function calls besides. -/
structure ClientCalls (σ V : Type) extends Calls σ V where
  createRequestStream : σ → Bool × σ
  deleteStream : σ → σ
  resetConnection : σ → σ

/-- What an emitted method handler calls besides: the service's function of that name, which sets every output. -/
structure ServerCalls (σ V : Type) extends Calls σ V where
  service : List Char → List V → σ → (Nat → V) × σ

/-! ## The client function -/

/-- A statement of a client function up to `end`, with the jump that follows it. -/
inductive ClientStmt where
  | createRequestStream
  | writeMethodId
  | serialize (i : Nat) (param : Param)
  | flush
  | readEmptyByte
  | unserialize (i : Nat) (param : Param)
  | assign (i : Nat)
  | incRef (i : Nat)
  deriving DecidableEq, Repr

/-- A statement behind `end`. -/
inductive ClientExitStmt where
  | resetConnection
  | decRef (i : Nat)
  | deleteStream
  deriving DecidableEq, Repr

structure ClientFunction where
  methodId : UInt8
  body : List ClientStmt
  exit : List ClientExitStmt
  deriving DecidableEq, Repr

/-- `dump_client_method`.  The id is the initialiser of a `uint8_t`. -/
def dumpClientMethod (method : Method) (id : Nat) : ClientFunction where
  methodId := UInt8.ofNat id
  body :=
    [.createRequestStream, .writeMethodId] ++
    method.requestParams.zipIdx.map (fun (param, i) => .serialize i param) ++
    [.flush] ++
    match method.responseParams with
    | [] => [.readEmptyByte]
    | _ =>
      method.responseParams.zipIdx.map (fun (param, i) => .unserialize i param) ++
      method.responseParams.zipIdx.flatMap
        (fun (param, i) => .assign i :: if cIsParamPtr param then [.incRef i] else [])
  exit :=
    [.resetConnection] ++
    method.responseParams.zipIdx.flatMap (fun (param, i) => if cIsParamPtr param then [.decRef i] else []) ++
    [.deleteStream]

/-- `dump_client_source`: the client functions of an interface, numbered from zero. -/
def dumpClientSource (interface : Interface) : List ClientFunction :=
  interface.methods.zipIdx.map fun (method, i) => dumpClientMethod method i

/-- The variables of a client function.  `responses`: the locals, `none` where nothing was set; `refCnt`: the references
to the object a pointer of `responses` points to; `outputs`: what the caller's variables were set to.  The last three
count what happened. -/
structure ClientState (σ V : Type) where
  world : σ
  stream : Bool
  responses : Nat → Option V
  refCnt : Nat → Int
  outputs : Nat → Option V
  result : FfResult
  creations : Nat
  deletions : Nat
  resets : Nat

/-- The variables at the start, where `result` has some value. -/
def ClientState.enter (world : σ) (result : FfResult) : ClientState σ V :=
  ⟨world, false, fun _ => none, fun _ => 0, fun _ => none, result, 0, 0, 0⟩

namespace ClientState

/-- The call returned `result`. -/
def returned (s : ClientState σ V) (call : FfResult × σ) : ClientState σ V :=
  { s with world := call.2, result := call.1 }

/-- `mrpc_T_unserialize(&response_i, stream)` made `v`, for a pointer type an object with one reference. -/
def decoded (s : ClientState σ V) (i : Nat) (param : Param) (v : V) (world : σ) : ClientState σ V :=
  { s with
    world := world
    result := .success
    responses := Function.update s.responses i (some v)
    refCnt := if cIsParamPtr param then Function.update s.refCnt i 1 else s.refCnt }

end ClientState

/-- What a statement does, with the arguments `args` of the function; `true`: it jumps to `end`. -/
def ClientStmt.exec (calls : ClientCalls σ V) (methodId : UInt8) (args : Nat → V) (stmt : ClientStmt)
    (s : ClientState σ V) : Bool × ClientState σ V :=
  match stmt with
  | .createRequestStream =>
    match calls.createRequestStream s.world with
    | (true, world) => (false, { s with world := world, stream := true, creations := s.creations + 1 })
    | (false, world) => (true, { s with world := world, stream := false, result := .failure })
  | .writeMethodId =>
    let call := calls.write methodId s.world
    (call.1 ≠ .success, s.returned call)
  | .serialize i param =>
    let call := calls.serialize param.type (args i) s.world
    (call.1 ≠ .success, s.returned call)
  | .flush =>
    let call := calls.flush s.world
    (call.1 ≠ .success, s.returned call)
  | .readEmptyByte =>
    match calls.read s.world with
    | (none, world) => (true, s.returned (.failure, world))
    | (some emptyByte, world) =>
      if emptyByte ≠ 0 then (true, s.returned (.failure, world)) else (false, s.returned (.success, world))
  | .unserialize i param =>
    match calls.unserialize param.type s.world with
    | (none, world) => (true, s.returned (.failure, world))
    | (some v, world) => (false, s.decoded i param v world)
  | .assign i => (false, { s with outputs := Function.update s.outputs i (s.responses i) })
  | .incRef i => (false, { s with refCnt := Function.update s.refCnt i (s.refCnt i + 1) })

def ClientExitStmt.exec (calls : ClientCalls σ V) (s : ClientState σ V) : ClientExitStmt → ClientState σ V
  | .resetConnection =>
    if s.result ≠ .success then { s with world := calls.resetConnection s.world, resets := s.resets + 1 } else s
  | .decRef i =>
    if (s.responses i).isSome then { s with refCnt := Function.update s.refCnt i (s.refCnt i - 1) } else s
  | .deleteStream =>
    if s.stream then { s with world := calls.deleteStream s.world, deletions := s.deletions + 1 } else s

/-- A call of the client function. -/
def ClientFunction.run (f : ClientFunction) (calls : ClientCalls σ V) (args : Nat → V) (world : σ) (result : FfResult) :
    ClientState σ V :=
  f.exit.foldl (fun s stmt => stmt.exec calls s)
    (Block.run (ClientStmt.exec calls f.methodId args) f.body (.enter world result)).2

/-! ## The server method handler -/

/-- A statement of a server method handler up to `end`, with the jump that follows it. -/
inductive HandlerStmt where
  | unserialize (i : Nat) (param : Param)
  | callService
  | writeEmptyByte
  | serialize (i : Nat) (param : Param)
  deriving DecidableEq, Repr

/-- A local of a server method handler. -/
inductive HandlerLocal where
  | request (i : Nat)
  | response (i : Nat)
  deriving DecidableEq, Repr

structure HandlerFunction where
  name : List Char
  requestCnt : Nat
  responseCnt : Nat
  body : List HandlerStmt
  exit : List HandlerLocal
  deriving DecidableEq, Repr

/-- `dump_server_method_handler`.  Behind `end`, `exit` are the locals that are released unless they are `NULL`. -/
def dumpServerMethodHandler (method : Method) : HandlerFunction where
  name := method.name
  requestCnt := method.requestParams.length
  responseCnt := method.responseParams.length
  body :=
    method.requestParams.zipIdx.map (fun (param, i) => .unserialize i param) ++
    [.callService] ++
    match method.responseParams with
    | [] => [.writeEmptyByte]
    | _ => method.responseParams.zipIdx.map (fun (param, i) => .serialize i param)
  exit :=
    method.requestParams.zipIdx.flatMap (fun (param, i) => if cIsParamPtr param then [.request i] else []) ++
    method.responseParams.zipIdx.flatMap (fun (param, i) => if cIsParamPtr param then [.response i] else [])

/-- The variables of a method handler; `released` are the locals whose reference was given up, in order. -/
structure HandlerState (σ V : Type) where
  world : σ
  requests : Nat → Option V
  responses : Nat → Option V
  result : FfResult
  released : List HandlerLocal

def HandlerState.enter (world : σ) (result : FfResult) : HandlerState σ V :=
  ⟨world, fun _ => none, fun _ => none, result, []⟩

/-- The variables, by the local's name. -/
def HandlerState.get (s : HandlerState σ V) : HandlerLocal → Option V
  | .request i => s.requests i
  | .response i => s.responses i

def HandlerStmt.exec (calls : ServerCalls σ V) (f : HandlerFunction) (stmt : HandlerStmt) (s : HandlerState σ V) :
    Bool × HandlerState σ V :=
  match stmt with
  | .unserialize i param =>
    match calls.unserialize param.type s.world with
    | (none, world) => (true, { s with world := world, result := .failure })
    | (some v, world) =>
      (false, { s with world := world, result := .success, requests := Function.update s.requests i (some v) })
  | .callService =>
    let call := calls.service f.name ((List.range f.requestCnt).filterMap s.requests) s.world
    (false, { s with world := call.2, responses := fun i => if i < f.responseCnt then some (call.1 i) else none })
  | .writeEmptyByte =>
    let call := calls.write 0 s.world
    (call.1 ≠ .success, { s with world := call.2, result := call.1 })
  | .serialize i param =>
    match s.responses i with
    | none => (true, { s with result := .failure })
    | some v =>
      let call := calls.serialize param.type v s.world
      (call.1 ≠ .success, { s with world := call.2, result := call.1 })

/-- The handler gives up its reference to what the local points to, unless it is `NULL`. -/
def HandlerState.release (s : HandlerState σ V) (l : HandlerLocal) : HandlerState σ V :=
  if (s.get l).isSome then { s with released := s.released ++ [l] } else s

/-- A call of the method handler. -/
def HandlerFunction.run (f : HandlerFunction) (calls : ServerCalls σ V) (world : σ) (result : FfResult) :
    HandlerState σ V :=
  f.exit.foldl HandlerState.release (Block.run (HandlerStmt.exec calls f) f.body (.enter world result)).2

/-! ## The stream handler -/

/-- `dump_server_stream_handler_source`: the table `server_method_handlers`. -/
def dumpServerStreamHandlerSource (interface : Interface) : List HandlerFunction :=
  interface.methods.map dumpServerMethodHandler

/-- What a stream handler leaves behind: its result, the entry of the table it called, and the world. -/
structure StreamHandled (σ : Type) where
  result : FfResult
  entry : Option Nat
  world : σ

/-- `dump_server_stream_handler` for a table of `handlers.length` entries: a call of the emitted stream handler.  `init`
is what the method handler's uninitialised `result` holds. -/
def runServerStreamHandler (handlers : List HandlerFunction) (calls : ServerCalls σ V) (init : FfResult) (world : σ) :
    StreamHandled σ :=
  match calls.read world with
  | (none, world) => ⟨.failure, none, world⟩
  | (some methodId, world) =>
    if h : methodId.toNat < handlers.length then
      let handler := handlers.get ⟨methodId.toNat, h⟩
      let handled := handler.run calls world init
      if handled.result ≠ .success then ⟨handled.result, some methodId.toNat, handled.world⟩
      else
        let call := calls.flush handled.world
        ⟨call.1, some methodId.toNat, call.2⟩
    else ⟨.failure, none, world⟩

end Mrpc
