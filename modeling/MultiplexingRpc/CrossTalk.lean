import MultiplexingRpc.Connection
/-!
# CrossTalk — calls of one connection do not mix

Request ids are recycled as soon as a call ends, and a packet says nothing but its id.  What keeps the calls of an id
apart is the client: it ends a call after it has read the whole response, whose last packet is never empty, so nothing of
the call is left on the way when its id is taken again.
-/
namespace Mrpc

/-- What was read on one side of an exchange, as far as it was written on the other: before the first failed read
nothing is missing, and after it nothing is there that was not written. -/
structure Log.ReadsFrom (l l' : Log) : Prop where
  received : l.received <+: l'.wrote
  delivered : l.delivered.Sublist l'.wrote

namespace Connection

variable {x x' : Connection}

/-- A client and handlers that keep to the protocol.  A call begins while fewer than 256 are active, and ends when it has
read the whole response, or when the connection was reset; a handler writes after it has read the whole request, and
flushes a response that is not empty. -/
def Conforms (x : Connection) : Action → Prop
  | .client (.createRequestStream _) => ∃ o, ¬ x.client.core.owned o
  | .client (.deleteRequestStream o) =>
    x.client.core.state ≠ .working ∨ (x.lane (x.client.core.requestIds o)).Answered
  | .client _ => True
  | .server (.event (.write o _)) => (x.lane (x.server.requestIds o)).Asked
  | .server (.event (.flush o)) =>
    (x.handlers (x.server.requestIds o) (x.handlerCnt (x.server.requestIds o) - 1)).wrote ≠ []
  | .server _ => True

instance (l : Lane) : Decidable l.Answered := inferInstanceAs (Decidable (_ ∧ _ ∧ _))

instance (l : Lane) : Decidable l.Asked := inferInstanceAs (Decidable (_ ∧ _))

instance (x : Connection) (a : Action) : Decidable (x.Conforms a) :=
  match a with
  | .client (.createRequestStream _) => inferInstanceAs (Decidable (∃ _, _))
  | .client (.deleteRequestStream _) => inferInstanceAs (Decidable (_ ∨ _))
  | .client (.event _) | .client .processStream | .client (.wake _) | .client (.receive _) | .client .stopAsync =>
    inferInstanceAs (Decidable True)
  | .server (.event (.write _ _)) => inferInstanceAs (Decidable (Lane.Asked _))
  | .server (.event (.flush _)) => inferInstanceAs (Decidable (_ ≠ _))
  | .server (.event (.read _ _)) | .server (.event (.get _)) | .server (.event (.timeout _))
  | .server (.event (.acquire _)) | .server (.event .reader) | .server (.event .readerFail) | .server (.event .writer)
  | .server (.event (.writerResult _)) | .server .start | .server .readerStart | .server (.receive _ _)
  | .server (.handlerReturn _ _) | .server .stopAsync => inferInstanceAs (Decidable True)

theorem Conforms.permitted {a : Action} (h : x.Conforms a) (hw : x.client.waiters = 0) : x.Permitted a := by
  cases a with
  | client a =>
    refine ⟨fun _ => hw, fun o ha => ?_⟩
    subst ha
    exact h
  | server a =>
    cases a with
    | event e => cases e <;> exact h
    | _ => exact h

/-- **Nobody waits for a request stream** while fewer than 256 calls are active. -/
theorem Conforms.waiters {a : Action} (h : x.Conforms a) (hw : x.client.waiters = 0) (hs : x.step a = some x') :
    x'.client.waiters = 0 := by
  cases a with
  | client a =>
    obtain ⟨toClient, c, -, hc, rfl⟩ := clientStep_cases hs
    show c.waiters = 0
    cases ClientStreamProcessor.outcome_of_step hc with
    | waits hst hall =>
      obtain ⟨o, ho⟩ := h
      exact absurd (hall o) ho
    | woken hpos ho => exact absurd hpos (by omega)
    | _ => exact hw
  | server a =>
    obtain ⟨toServer, s, -, -, rfl⟩ := serverStep_cases hs
    exact hw

theorem sound_of_conforms (as : List Action) (hC : Run.Meets step Conforms established as)
    (hrun : Run.exec step established as = some x) : x.Sound := by
  refine (Run.invariant (P := fun x => x.Sound ∧ x.client.waiters = 0) (fun x a x' hx hC hs => ?_) as
    ⟨sound_established, rfl⟩ hC hrun).1
  exact ⟨hx.1.step (hC.permitted hx.2) hs, hC.waiters hx.2 hs⟩

/-- **No cross-talk**: what a call reads comes from its handler, and what a handler reads comes from its call. -/
theorem no_crosstalk (as : List Action) (x : Connection) (hC : Run.Meets step Conforms established as)
    (hrun : Run.exec step established as = some x) (r : RequestId) (n : Nat) :
    (x.calls r n).ReadsFrom (x.handlers r n) ∧ (x.handlers r n).ReadsFrom (x.calls r n) := by
  have hinv := (sound_of_conforms as hC hrun).lanes r
  obtain ⟨hcall, hhandler⟩ := hinv.received_le n
  obtain ⟨hcall', hhandler'⟩ := hinv.delivered_le n
  exact ⟨⟨hcall, hcall'⟩, ⟨hhandler, hhandler'⟩⟩

/-- A call with a request of one byte, up to its handler. -/
def request : List Action :=
  [.client (.createRequestStream 0), .client (.event (.write 0 [7])), .client (.event (.flush 0)), .client (.event .writer),
    .client (.event (.writerResult .success)), .server (.event .reader), .server (.receive ⟨.single, 0, [7]⟩ 0),
    .server (.event (.read 0 1)), .server (.event (.get 0))]

/-- The handler's response, of one byte as well, and the end of the call. -/
def reply : List Action :=
  [.server (.event (.write 0 [9])), .server (.event (.flush 0)), .server (.event .writer),
    .server (.event (.writerResult .success)), .client (.event .reader), .client (.receive ⟨.single, 0, [9]⟩),
    .client (.event (.read 0 1)), .client (.event (.get 0)), .server (.handlerReturn 0 .success),
    .client (.deleteRequestStream 0)]

theorem no_crosstalk_reply : ∃ x, Run.exec step established (request ++ reply) = some x ∧
    (x.calls 0 0).reads = [some [9]] ∧ (x.calls 0 0).ReadsFrom (x.handlers 0 0) ∧
    (x.handlers 0 0).ReadsFrom (x.calls 0 0) := by
  have hC : Run.Meets step Conforms established (request ++ reply) := Run.meets_of_check _ (by decide +kernel)
  obtain ⟨x, hrun⟩ : ∃ x, Run.exec step established (request ++ reply) = some x :=
    Option.isSome_iff_exists.1 (by decide +kernel)
  have hreads : (Run.exec step established (request ++ reply)).map (fun x => (x.calls 0 0).reads) = some [some [9]] := by
    decide +kernel
  rw [hrun] at hreads
  exact ⟨x, hrun, Option.some.inj hreads, no_crosstalk (request ++ reply) x hC hrun 0 0⟩

/-- One byte more than a packet holds. -/
def longResponse : List UInt8 := List.replicate maxPacketSize 0 ++ [1]

/-- The response comes in two packets, the second after `READ_TIMEOUT`: the client's read of all of it fails, and the next
one returns the last byte. -/
def slowReply : List Action :=
  [.server (.event (.write 0 longResponse)), .server (.event (.acquire 0)), .server (.event (.flush 0)),
    .server (.event .writer), .server (.event (.writerResult .success)), .client (.event .reader),
    .client (.receive ⟨.start, 0, List.replicate maxPacketSize 0⟩), .client (.event (.read 0 (maxPacketSize + 1))),
    .client (.event (.get 0)), .client (.event (.timeout 0)), .server (.event .writer),
    .server (.event (.writerResult .success)), .client (.event .reader), .client (.receive ⟨.end_, 0, [1]⟩),
    .client (.event (.read 0 1)), .client (.event (.get 0))]

set_option maxRecDepth 100000 in
theorem check_slowReply : Run.check step Conforms established (request ++ slowReply) = true := by decide +kernel

set_option maxRecDepth 100000 in
theorem logs_slowReply : (Run.exec step established (request ++ slowReply)).map
    (fun x => ((x.calls 0 0).reads, (x.handlers 0 0).wrote)) = some ([none, some [1]], longResponse) := by
  decide +kernel

/-- A read that times out drops the bytes it had, so the successful reads alone do not make up a prefix. -/
theorem not_delivered_prefix : ¬ ∀ (as : List Action) (x : Connection), Run.Meets step Conforms established as →
    Run.exec step established as = some x → ∀ (r : RequestId) (n : Nat),
      (x.calls r n).delivered <+: (x.handlers r n).wrote ∧ (x.handlers r n).delivered <+: (x.calls r n).wrote := by
  intro h
  obtain ⟨x, hrun, hlogs⟩ := Option.map_eq_some_iff.1 logs_slowReply
  obtain ⟨hreads, hwrote⟩ := Prod.mk.inj hlogs
  have hle := (h _ x (Run.meets_of_check _ check_slowReply) hrun 0 0).1
  rw [Log.delivered, hreads, hwrote] at hle
  obtain ⟨rest, hrest⟩ := hle
  have hhead : some (1 : UInt8) = longResponse.head? := congrArg List.head? hrest
  rw [show longResponse.head? = some 0 from rfl] at hhead
  exact absurd hhead (by decide)

end Connection
end Mrpc
