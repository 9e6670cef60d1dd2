import MultiplexingRpc.Common
/-!
# Interface — the interface compiler's syntax tree (`types.h`, `c_common.c`)

An interface is a list of methods; a method takes request parameters and returns response parameters, each of one of
seven types.  The lists of the source are linked lists in declaration order.
-/
namespace Mrpc

/-- `enum param_type`. -/
inductive ParamType where
  | uint32
  | int32
  | uint64
  | int64
  | charArray
  | wcharArray
  | blob
  deriving DecidableEq, Repr

/-- `struct param`. -/
structure Param where
  type : ParamType
  isKey : Bool
  name : List Char
  deriving DecidableEq, Repr

/-- `struct method`. -/
structure Method where
  requestParams : List Param
  responseParams : List Param
  name : List Char
  deriving DecidableEq, Repr

/-- `struct interface`. -/
structure Interface where
  methods : List Method
  name : List Char
  deriving DecidableEq, Repr

/-- `c_is_param_ptr`. -/
def cIsParamPtr (param : Param) : Bool :=
  match param.type with
  | .charArray | .wcharArray | .blob => true
  | _ => false

end Mrpc
