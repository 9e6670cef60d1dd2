import Mathlib.Tactic.IntervalCases
import MultiplexingRpc.GeneratedCode
import MultiplexingRpc.Grammar
/-!
# Dispatch — which method handler a client function reaches

The client functions and the entries of `server_method_handlers` are numbered by two counters, and the number passes
through a `uint8_t`.  The parser puts no bound on the number of methods: from the 257th on, a client function calls the
handler of another method.
-/
namespace Mrpc

/-- **Dispatch is exact**: the id a client function sends makes the stream handler call the entry of its own method, and
an id that no client function sends is refused. -/
structure DispatchesExactly (interface : Interface) : Prop where
  own : ∀ (i : Nat) (f : ClientFunction), (dumpClientSource interface)[i]? = some f →
    ∀ (σ V : Type) (calls : ServerCalls σ V) (init : FfResult) (world world' : σ),
      calls.read world = (some f.methodId, world') →
      (runServerStreamHandler (dumpServerStreamHandlerSource interface) calls init world).entry = some i
  refused : ∀ methodId : UInt8, (∀ f ∈ dumpClientSource interface, f.methodId ≠ methodId) →
    ∀ (σ V : Type) (calls : ServerCalls σ V) (init : FfResult) (world world' : σ),
      calls.read world = (some methodId, world') →
      runServerStreamHandler (dumpServerStreamHandlerSource interface) calls init world = ⟨.failure, none, world'⟩

variable {σ V : Type}

/-- **The entry the stream handler calls** is the id it read, if there is one. -/
theorem entry_runServerStreamHandler {handlers : List HandlerFunction} {calls : ServerCalls σ V} {init : FfResult}
    {world world' : σ} {methodId : UInt8} (hread : calls.read world = (some methodId, world')) :
    (runServerStreamHandler handlers calls init world).entry
      = if methodId.toNat < handlers.length then some methodId.toNat else none := by
  unfold runServerStreamHandler
  rw [hread]
  dsimp only
  split
  · split <;> rfl
  · rfl

theorem getElem?_dumpClientSource {interface : Interface} {i : Nat} {f : ClientFunction}
    (h : (dumpClientSource interface)[i]? = some f) :
    i < interface.methods.length ∧ f.methodId = UInt8.ofNat i := by
  unfold dumpClientSource at h
  rw [List.getElem?_map, List.getElem?_zipIdx] at h
  cases hm : interface.methods[i]? with
  | none => simp [hm] at h
  | some method =>
    rw [hm] at h
    cases h
    refine ⟨(List.getElem?_eq_some_iff.1 hm).1, ?_⟩
    simp [dumpClientMethod]

theorem length_dumpServerStreamHandlerSource (interface : Interface) :
    (dumpServerStreamHandlerSource interface).length = interface.methods.length := by
  simp [dumpServerStreamHandlerSource]

theorem dispatchesExactly_of_le {interface : Interface} (hlen : interface.methods.length ≤ 256) :
    DispatchesExactly interface := by
  constructor
  · intro i f hf σ V calls init world world' hread
    obtain ⟨hi, hid⟩ := getElem?_dumpClientSource hf
    have hnat : f.methodId.toNat = i := by
      rw [hid, UInt8.toNat_ofNat']
      exact Nat.mod_eq_of_lt (by omega)
    rw [entry_runServerStreamHandler hread, hnat, length_dumpServerStreamHandlerSource, if_pos hi]
  · intro methodId hnone σ V calls init world world' hread
    have hout : ¬ methodId.toNat < (dumpServerStreamHandlerSource interface).length := by
      rw [length_dumpServerStreamHandlerSource]
      intro hlt
      -- the client function at this position sends the id
      refine hnone (dumpClientMethod (interface.methods.get ⟨_, hlt⟩) methodId.toNat) ?_ ?_
      · rw [List.mem_iff_getElem?]
        refine ⟨methodId.toNat, ?_⟩
        simp [dumpClientSource, hlt]
      · simp [dumpClientMethod]
    unfold runServerStreamHandler
    rw [hread]
    dsimp only
    rw [dif_neg hout]

/-- The calls of a method handler that reads one byte, for the stream handler's choice. -/
def oneByteCalls (byte : UInt8) : ServerCalls Unit Unit where
  write _ w := (.success, w)
  read w := (some byte, w)
  flush w := (.success, w)
  serialize _ _ w := (.success, w)
  unserialize _ w := (some (), w)
  service _ _ w := (fun _ => (), w)

/-- The client function of the 257th method sends the id of the first. -/
theorem not_dispatchesExactly_of_lt {interface : Interface} (hlen : 256 < interface.methods.length) :
    ¬ DispatchesExactly interface := by
  intro h
  have hf : (dumpClientSource interface)[256]? = some (dumpClientMethod (interface.methods.get ⟨256, hlen⟩) 256) := by
    simp [dumpClientSource, hlen]
  have hentry := h.own 256 _ hf Unit Unit (oneByteCalls 0) .success () () rfl
  have hread : (oneByteCalls 0).read () = (some 0, ()) := rfl
  have hpos : (0 : UInt8).toNat < interface.methods.length := by
    show 0 < interface.methods.length
    omega
  rw [entry_runServerStreamHandler hread, length_dumpServerStreamHandlerSource, if_pos hpos] at hentry
  exact absurd hentry (by decide)

/-- **Dispatch is exact precisely while the method ids fit into their byte.** -/
theorem dispatchesExactly_iff (interface : Interface) :
    DispatchesExactly interface ↔ interface.methods.length ≤ 256 := by
  constructor
  · intro h
    by_contra hlen
    exact not_dispatchesExactly_of_lt (by omega) h
  · intro hlen
    exact dispatchesExactly_of_le hlen

/-! ## An interface the parser accepts -/

/-- `m` and the number in three digits. -/
def numberedName (i : Nat) : List Char :=
  'm' :: [i / 100 % 10, i / 10 % 10, i % 10].map (fun d => Char.ofNat (48 + d))

theorem isIdChar_digit {d : Nat} (h : d < 10) : isIdChar (Char.ofNat (48 + d)) = true := by
  interval_cases d <;> decide

theorem isId_numberedName (i : Nat) : IsId (numberedName i) := by
  refine ⟨by decide, ?_⟩
  intro c hc
  simp only [List.map_cons, List.map_nil, List.mem_cons, List.not_mem_nil, or_false] at hc
  rcases hc with rfl | rfl | rfl <;> exact isIdChar_digit (Nat.mod_lt _ (by decide))

/-- A method without parameters, in front of the rest of a text. -/
def numberedMethodText (i : Nat) (rest : List Char) : List Char :=
  "method".toList ++ ' ' :: (numberedName i ++ '{' :: ("request".toList ++ '{' :: '}' ::
    ("response".toList ++ '{' :: '}' :: '}' :: rest)))

def numberedMethodTokens (i : Nat) : List Token :=
  [Grammar.word "method", .id (numberedName i), .openBrace, Grammar.word "request", .openBrace, .closeBrace,
    Grammar.word "response", .openBrace, .closeBrace, .closeBrace]

theorem lexes_id {name rest : List Char} {ch : Char} {tokens : List Token} (hname : IsId name)
    (hlen : name.length ≤ 99) (hch : isDelimiter ch = true) (h : Lexes (ch :: rest) tokens) :
    Lexes (name ++ ch :: rest) (.id name :: tokens) := by
  refine .id hname hlen ?_ h
  simpa using hch

theorem lexes_numberedMethod (i : Nat) {rest : List Char} {tokens : List Token} (h : Lexes rest tokens) :
    Lexes (numberedMethodText i rest) (numberedMethodTokens i ++ tokens) := by
  have hresponse : Lexes ("response".toList ++ '{' :: '}' :: '}' :: rest) _ :=
    lexes_id (by decide) (by decide) (by decide) (.openBrace (.closeBrace (.closeBrace h)))
  have hrequest : Lexes ("request".toList ++ '{' :: '}' :: ("response".toList ++ '{' :: '}' :: '}' :: rest)) _ :=
    lexes_id (by decide) (by decide) (by decide) (.openBrace (.closeBrace hresponse))
  have hname := lexes_id (isId_numberedName i) (show 4 ≤ 99 by decide) (by decide) (.openBrace hrequest)
  exact lexes_id (by decide) (by decide) (by decide) (.whitespace (by decide) hname)

theorem derives_numberedMethod (i : Nat) : Grammar.Method (numberedMethodTokens i) ⟨[], [], numberedName i⟩ :=
  .mk (numberedName i) (.mk .nil) (.mk .nil)

/-- Numbered methods one after the other, and the closing brace of the interface. -/
theorem numberedMethods : ∀ is : List Nat,
    Lexes (is.foldr numberedMethodText ['}']) (is.flatMap numberedMethodTokens ++ [.closeBrace]) ∧
      Grammar.Sequence Grammar.Method (is.flatMap numberedMethodTokens) (is.map fun i => ⟨[], [], numberedName i⟩)
  | [] => ⟨.closeBrace .nil, .nil⟩
  | i :: is => by
    obtain ⟨hlexes, hsequence⟩ := numberedMethods is
    refine ⟨?_, .cons (derives_numberedMethod i) hsequence⟩
    rw [List.flatMap_cons, List.append_assoc]
    exact lexes_numberedMethod i hlexes

/-- An interface with the methods `m000`, `m001`, and so on. -/
def numberedInterfaceText (n : Nat) : List Char :=
  "interface".toList ++ ' ' :: (['i'] ++ '{' :: (List.range n).foldr numberedMethodText ['}'])

theorem parseInterface_numbered (filename : String) (n : Nat) :
    parseInterface filename (numberedInterfaceText (n + 1))
      = .ok ⟨(List.range (n + 1)).map fun i => ⟨[], [], numberedName i⟩, ['i']⟩ := by
  apply (ParserCtx.matchInterface_iff rfl _).2
  obtain ⟨hlexes, -⟩ := numberedMethods (List.range (n + 1))
  obtain ⟨-, hrest⟩ := numberedMethods ((List.range n).map Nat.succ)
  have hrange : List.range (n + 1) = 0 :: (List.range n).map Nat.succ := List.range_succ_eq_map
  refine ⟨Grammar.word "interface" :: .id ['i'] :: .openBrace ::
    ((List.range (n + 1)).flatMap numberedMethodTokens ++ [.closeBrace]), ?_, ?_⟩
  · have hname : Lexes (['i'] ++ '{' :: (List.range (n + 1)).foldr numberedMethodText ['}']) _ :=
      lexes_id (by decide) (by decide) (by decide) (.openBrace hlexes)
    exact lexes_id (by decide) (by decide) (by decide) (.whitespace (by decide) hname)
  · rw [hrange, List.flatMap_cons, List.map_cons, List.append_assoc]
    exact .mk ['i'] (derives_numberedMethod 0) hrest

/-- **The parser accepts 257 methods, and the last of them is not reached.** -/
theorem not_dispatchesExactly_numbered :
    ∃ interface, parseInterface "numbered" (numberedInterfaceText 257) = .ok interface ∧
      ¬ DispatchesExactly interface := by
  refine ⟨_, parseInterface_numbered "numbered" 256, ?_⟩
  apply not_dispatchesExactly_of_lt
  simp

end Mrpc
