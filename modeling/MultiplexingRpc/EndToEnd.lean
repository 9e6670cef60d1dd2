import MultiplexingRpc.ByteConnection
import MultiplexingRpc.FailingStreams
/-!
# EndToEnd — remote calls over a transport that fails

Both sides of a connection run emitted code: the calls are client functions, the handlers the stream handler of the same
interface.  They keep to the protocol that `ByteConnection` asks for, so every client function that succeeds has the values
that the service function of its method made of its own arguments, whatever the other calls do and wherever the connection
breaks; and that service function is called at most once, with these arguments, whether the client function succeeds or not.
-/
namespace Mrpc

variable {S V : Type}

/-! ## Calls and their logs -/

/-- A remote call: the method and its place in the interface, the arguments, and the state the service is in when it
comes. -/
structure Job (S V : Type) where
  method : Method
  id : Nat
  args : Nat → V
  state : S

namespace Log

/-- The stream of a function that got as far as the log says: what it did not do yet would fail. -/
def endpoint (l : Log) : Endpoint := ⟨l.received, [], l.wrote.length, l.flushed, false⟩

/-- The log shows what was done on the stream. -/
structure Shows (l : Log) (e : Endpoint) : Prop where
  wrote : e.out = l.wrote
  flushed : e.flushed = l.flushed

instance (l : Log) (e : Endpoint) : Decidable (l.Shows e) :=
  decidable_of_iff (e.out = l.wrote ∧ e.flushed = l.flushed) ⟨fun h => ⟨h.1, h.2⟩, fun h => ⟨h.1, h.2⟩⟩

/-- A function reads no more once a read has failed. -/
def ReadsOn (l : Log) : Deed → Prop
  | .returned _ => l.reads.all Option.isSome = true
  | _ => True

/-- What a function writes first is not empty. -/
def WritesOn (l : Log) : Deed → Prop
  | .wrote bytes => l.wrote ++ bytes ≠ []
  | _ => True

instance (l : Log) (d : Deed) : Decidable (l.ReadsOn d) :=
  match d with
  | .returned _ => inferInstanceAs (Decidable (_ = true))
  | .nothing | .wrote _ | .flushed | .arrived _ => inferInstanceAs (Decidable True)

instance (l : Log) (d : Deed) : Decidable (l.WritesOn d) :=
  match d with
  | .wrote _ => inferInstanceAs (Decidable (_ ≠ _))
  | .nothing | .returned _ | .flushed | .arrived _ => inferInstanceAs (Decidable True)

/-- **All that was read was read before the first failure.** -/
theorem delivered_note {l : Log} {d : Deed} (h : l.delivered = l.received) (hr : l.ReadsOn d) :
    (l.note d).delivered = (l.note d).received := by
  cases d with
  | returned result =>
    have hall : ∀ read ∈ l.reads, read.isSome = true := List.all_eq_true.1 hr
    show (l.reads ++ [result]).reduceOption.flatten
      = ((l.reads ++ [result]).takeWhile Option.isSome).reduceOption.flatten
    rw [List.takeWhile_append_of_pos hall]
    cases result with
    | none => simp [List.reduceOption]
    | some bytes => simp
  | nothing | wrote | flushed | arrived => exact h

end Log

namespace Job

variable (codecs : Codecs V) (interface : Interface) (service : List Char → List V → S → (Nat → V) × S)

/-- What the service function returns. -/
def answer (j : Job S V) : Nat → V := (service j.method.name (j.method.requestValues j.args) j.state).1

def request (j : Job S V) : List UInt8 := UInt8.ofNat j.id :: codecs.encoded j.method.requestParams 0 j.args

def response (j : Job S V) : List UInt8 := responseBytes codecs j.method (j.answer service)

/-- The client function, as far as the log of the call goes. -/
def call (j : Job S V) (l : Log) : ClientState Endpoint V :=
  (dumpClientMethod j.method j.id).run (streamClientCalls codecs) j.args l.endpoint .failure

/-- The stream handler, as far as the log of the handler goes. -/
def handle (j : Job S V) (l : Log) : StreamHandled (Serving S V) :=
  runServerStreamHandler (dumpServerStreamHandlerSource interface) (streamServerCalls codecs service) .failure
    ⟨l.endpoint, j.state, []⟩

/-- The method is one of the interface, and all values are such that parameters have. -/
structure Admitted (j : Job S V) : Prop where
  method : interface.methods[j.id]? = some j.method
  args : codecs.AdmitsAll j.method.requestParams 0 j.args
  answer : codecs.AdmitsAll j.method.responseParams 0 (j.answer service)

end Job

/-! ## Generated code on a connection -/

namespace ByteConnection

section Generated

variable (codecs : Codecs V) (interface : Interface) (service : List Char → List V → S → (Nat → V) × S)
  (jobs : RequestId → Nat → Job S V)

/-- The call on a request stream goes on as its client function does. -/
def CallGoesOn (x : ByteConnection) (o : StreamNo) (d : Deed) : Prop :=
  let r := x.client.core.requestIds o
  let l := x.calls r (x.callCnt r - 1)
  l.ReadsOn d ∧ (l.note d).Shows ((jobs r (x.callCnt r - 1)).call codecs (l.note d)).world

/-- The handler on a request stream goes on as the stream handler does. -/
def HandlerGoesOn (x : ByteConnection) (o : StreamNo) (d : Deed) : Prop :=
  let r := x.server.requestIds o
  let l := x.handlers r (x.handlerCnt r - 1)
  l.ReadsOn d ∧ l.WritesOn d ∧
    (l.note d).Shows ((jobs r (x.handlerCnt r - 1)).handle codecs interface service (l.note d)).world.stream

/-- Both sides run generated code; the call number `n` under the request id `r` is `jobs r n`.  Its client function deletes
its stream once it has succeeded, or once the connection was reset.  At most 256 calls are active. -/
def Generated (x : ByteConnection) : Action → Prop
  | .client (.createRequestStream _) => ∃ o, ¬ x.client.core.owned o
  | .client (.deleteRequestStream o) =>
    let r := x.client.core.requestIds o
    let n := x.callCnt r - 1
    x.client.core.state ≠ .working ∨ ((jobs r n).call codecs (x.calls r n)).result = .success
  | .client (.event e) => ∀ o ∈ e.owner, x.CallGoesOn codecs jobs o (x.client.core.deed e)
  | .server (.event e) => ∀ o ∈ e.owner, x.HandlerGoesOn codecs interface service jobs o (x.server.deed e)
  | _ => True

instance (x : ByteConnection) (o : StreamNo) (d : Deed) : Decidable (x.CallGoesOn codecs jobs o d) :=
  inferInstanceAs (Decidable (_ ∧ _))

instance (x : ByteConnection) (o : StreamNo) (d : Deed) :
    Decidable (x.HandlerGoesOn codecs interface service jobs o d) := inferInstanceAs (Decidable (_ ∧ _ ∧ _))

instance (x : ByteConnection) (a : Action) : Decidable (x.Generated codecs interface service jobs a) :=
  match a with
  | .client (.createRequestStream _) => inferInstanceAs (Decidable (∃ _, _))
  | .client (.deleteRequestStream _) => inferInstanceAs (Decidable (_ ∨ _))
  | .client (.event e) => inferInstanceAs (Decidable (∀ o ∈ e.owner, x.CallGoesOn codecs jobs o (x.client.core.deed e)))
  | .server (.event e) =>
    inferInstanceAs (Decidable (∀ o ∈ e.owner, x.HandlerGoesOn codecs interface service jobs o (x.server.deed e)))
  | .client .processStream | .client (.wake _) | .client (.receive _) | .client .stopAsync | .clientWrites _
  | .clientReads _ | .server .start | .server .readerStart | .server (.receive _ _) | .server (.handlerReturn _ _)
  | .server .stopAsync | .serverWrites _ | .serverReads _ _ => inferInstanceAs (Decidable True)

end Generated

end ByteConnection

/-! ## What a step notes -/

theorem note_cases (logs : Nat → Log) (i : Nat) (d : Deed) (n : Nat) :
    note logs i d n = logs n ∨ i = n ∧ note logs i d n = (logs n).note d := by
  by_cases hn : n = i
  · subst hn
    exact Or.inr ⟨rfl, note_self ..⟩
  · exact Or.inl (note_of_ne hn d)

namespace Connection

variable {x x' : Connection}

/-- **A step of the client notes what a call does**, or what came for it. -/
theorem calls_of_clientStep {a : ClientStreamProcessor.Action} (h : x.clientStep a = some x') (hx : x.client.core.Sound)
    (r : RequestId) (n : Nat) :
    x'.calls r n = x.calls r n ∨ (∃ bytes, x'.calls r n = (x.calls r n).note (.arrived bytes)) ∨
      ∃ e o, a = .event e ∧ e.owner = some o ∧ x.client.core.requestIds o = r ∧ x.callCnt r - 1 = n ∧
        x'.calls r n = (x.calls r n).note (x.client.core.deed e) := by
  obtain ⟨toClient, c, -, hc, rfl⟩ := clientStep_cases h
  dsimp only [noteAll]
  rcases note_cases (x.calls r) (count x.callCnt x.client.core c.core r - 1) (x.client.deedOn a r) n with hsame | ⟨hn, hnote⟩
  · exact Or.inl hsame
  · rw [hnote]
    cases a with
    | event e =>
      obtain ⟨core, hcore, rfl⟩ := Option.map_eq_some_iff.1 hc
      have hactive : core.active r = x.client.core.active r := by
        rw [((StreamProcessor.turn_of_event hcore).table hx.fiberOk).1]
      rw [count_of_active hactive] at hn
      cases hown : e.owner with
      | none =>
        left
        show (x.calls r n).note (x.client.core.deedOn e r) = _
        rw [StreamProcessor.deedOn_of_none hown]
        rfl
      | some o =>
        by_cases hr : x.client.core.requestIds o = r
        · subst hr
          refine Or.inr (Or.inr ⟨e, o, rfl, hown, rfl, hn, ?_⟩)
          show (x.calls _ n).note (x.client.core.deedOn e _) = _
          rw [StreamProcessor.deedOn_of_owner hown]
        · left
          show (x.calls r n).note (x.client.core.deedOn e r) = _
          rw [StreamProcessor.deedOn_of_ne hown hr]
          rfl
    | receive f =>
      dsimp only [ClientStreamProcessor.deedOn]
      split
      · exact Or.inr (Or.inl ⟨f.body, rfl⟩)
      · exact Or.inl rfl
    | _ => exact Or.inl rfl

/-- **A step of the server notes what a handler does**, or what came for it. -/
theorem handlers_of_serverStep {a : ServerStreamProcessor.Action} (h : x.serverStep a = some x') (hx : x.server.Sound)
    (r : RequestId) (n : Nat) :
    x'.handlers r n = x.handlers r n ∨ (∃ bytes, x'.handlers r n = (x.handlers r n).note (.arrived bytes)) ∨
      ∃ e o, a = .event e ∧ e.owner = some o ∧ x.server.requestIds o = r ∧ x.handlerCnt r - 1 = n ∧
        x'.handlers r n = (x.handlers r n).note (x.server.deed e) := by
  obtain ⟨toServer, t, -, ht, rfl⟩ := serverStep_cases h
  dsimp only [noteAll]
  rcases note_cases (x.handlers r) (count x.handlerCnt x.server t r - 1) (ServerStreamProcessor.deedOn x.server a r) n with
    hsame | ⟨hn, hnote⟩
  · exact Or.inl hsame
  · rw [hnote]
    cases a with
    | event e =>
      have hturn : x.server.event e = some t := ht
      have hactive : t.active r = x.server.active r := by
        rw [((StreamProcessor.turn_of_event hturn).table hx.fiberOk).1]
      rw [count_of_active hactive] at hn
      cases hown : e.owner with
      | none =>
        left
        show (x.handlers r n).note (x.server.deedOn e r) = _
        rw [StreamProcessor.deedOn_of_none hown]
        rfl
      | some o =>
        by_cases hr : x.server.requestIds o = r
        · subst hr
          refine Or.inr (Or.inr ⟨e, o, rfl, hown, rfl, hn, ?_⟩)
          show (x.handlers _ n).note (x.server.deedOn e _) = _
          rw [StreamProcessor.deedOn_of_owner hown]
        · left
          show (x.handlers r n).note (x.server.deedOn e r) = _
          rw [StreamProcessor.deedOn_of_ne hown hr]
          rfl
    | receive f o =>
      dsimp only [ServerStreamProcessor.deedOn]
      split
      · exact Or.inr (Or.inl ⟨f.body, rfl⟩)
      · exact Or.inl rfl
    | _ => exact Or.inl rfl

end Connection

namespace ByteConnection

variable {x x' : ByteConnection} {ts tc : List Frame} {a : Action}

theorem calls_of_step (hx : x.Framed ts tc) (h : x.step a = some x') (r : RequestId) (n : Nat) :
    x'.calls r n = x.calls r n ∨ (∃ bytes, x'.calls r n = (x.calls r n).note (.arrived bytes)) ∨
      ∃ e o, a = .client (.event e) ∧ e.owner = some o ∧ x.client.core.requestIds o = r ∧ x.callCnt r - 1 = n ∧
        x'.calls r n = (x.calls r n).note (x.client.core.deed e) := by
  have hcore := hx.sound.client.sound.core
  cases a with
  | client a =>
    simp only [ByteConnection.step] at h
    split at h
    · cases h
    · obtain ⟨y, hy, rfl⟩ := Option.map_eq_some_iff.1 h
      rcases Connection.calls_of_clientStep hy hcore r n with hsame | harrived | ⟨e, o, rfl, hmore⟩
      · exact Or.inl hsame
      · exact Or.inr (Or.inl harrived)
      · exact Or.inr (Or.inr ⟨e, o, rfl, hmore⟩)
  | clientWrites outcomes =>
    obtain ⟨⟨result, bytes⟩, -, h⟩ := Option.bind_eq_some_iff.1 h
    obtain ⟨y, hy, rfl⟩ := Option.map_eq_some_iff.1 h
    rcases Connection.calls_of_clientStep hy hcore r n with hsame | harrived | ⟨e, o, he, hown, -⟩
    · exact Or.inl hsame
    · exact Or.inr (Or.inl harrived)
    · cases he
      cases hown
  | clientReads buf =>
    obtain ⟨⟨f, rest⟩, -, h⟩ := Option.bind_eq_some_iff.1 h
    obtain ⟨y, hy, rfl⟩ := Option.map_eq_some_iff.1 h
    rcases Connection.calls_of_clientStep hy hcore r n with hsame | harrived | ⟨e, o, he, -⟩
    · exact Or.inl hsame
    · exact Or.inr (Or.inl harrived)
    · cases he
  | server a =>
    simp only [ByteConnection.step] at h
    split at h
    · cases h
    · obtain ⟨y, hy, rfl⟩ := Option.map_eq_some_iff.1 h
      obtain ⟨toServer, t, -, -, rfl⟩ := Connection.serverStep_cases hy
      exact Or.inl rfl
  | serverWrites outcomes =>
    obtain ⟨⟨result, bytes⟩, -, h⟩ := Option.bind_eq_some_iff.1 h
    obtain ⟨y, hy, rfl⟩ := Option.map_eq_some_iff.1 h
    obtain ⟨toServer, t, -, -, rfl⟩ := Connection.serverStep_cases hy
    exact Or.inl rfl
  | serverReads buf o =>
    obtain ⟨⟨f, rest⟩, -, h⟩ := Option.bind_eq_some_iff.1 h
    obtain ⟨y, hy, rfl⟩ := Option.map_eq_some_iff.1 h
    obtain ⟨toServer, t, -, -, rfl⟩ := Connection.serverStep_cases hy
    exact Or.inl rfl

theorem handlers_of_step (hx : x.Framed ts tc) (h : x.step a = some x') (r : RequestId) (n : Nat) :
    x'.handlers r n = x.handlers r n ∨ (∃ bytes, x'.handlers r n = (x.handlers r n).note (.arrived bytes)) ∨
      ∃ e o, a = .server (.event e) ∧ e.owner = some o ∧ x.server.requestIds o = r ∧ x.handlerCnt r - 1 = n ∧
        x'.handlers r n = (x.handlers r n).note (x.server.deed e) := by
  have hcore := hx.sound.server.core
  cases a with
  | server a =>
    simp only [ByteConnection.step] at h
    split at h
    · cases h
    · obtain ⟨y, hy, rfl⟩ := Option.map_eq_some_iff.1 h
      rcases Connection.handlers_of_serverStep hy hcore r n with hsame | harrived | ⟨e, o, rfl, hmore⟩
      · exact Or.inl hsame
      · exact Or.inr (Or.inl harrived)
      · exact Or.inr (Or.inr ⟨e, o, rfl, hmore⟩)
  | serverWrites outcomes =>
    obtain ⟨⟨result, bytes⟩, -, h⟩ := Option.bind_eq_some_iff.1 h
    obtain ⟨y, hy, rfl⟩ := Option.map_eq_some_iff.1 h
    rcases Connection.handlers_of_serverStep hy hcore r n with hsame | harrived | ⟨e, o, he, hown, -⟩
    · exact Or.inl hsame
    · exact Or.inr (Or.inl harrived)
    · cases he
      cases hown
  | serverReads buf o =>
    obtain ⟨⟨f, rest⟩, -, h⟩ := Option.bind_eq_some_iff.1 h
    obtain ⟨y, hy, rfl⟩ := Option.map_eq_some_iff.1 h
    rcases Connection.handlers_of_serverStep hy hcore r n with hsame | harrived | ⟨e, o, he, -⟩
    · exact Or.inl hsame
    · exact Or.inr (Or.inl harrived)
    · cases he
  | client a =>
    simp only [ByteConnection.step] at h
    split at h
    · cases h
    · obtain ⟨y, hy, rfl⟩ := Option.map_eq_some_iff.1 h
      obtain ⟨toClient, c, -, -, rfl⟩ := Connection.clientStep_cases hy
      exact Or.inl rfl
  | clientWrites outcomes =>
    obtain ⟨⟨result, bytes⟩, -, h⟩ := Option.bind_eq_some_iff.1 h
    obtain ⟨y, hy, rfl⟩ := Option.map_eq_some_iff.1 h
    obtain ⟨toClient, c, -, -, rfl⟩ := Connection.clientStep_cases hy
    exact Or.inl rfl
  | clientReads buf =>
    obtain ⟨⟨f, rest⟩, -, h⟩ := Option.bind_eq_some_iff.1 h
    obtain ⟨y, hy, rfl⟩ := Option.map_eq_some_iff.1 h
    obtain ⟨toClient, c, -, -, rfl⟩ := Connection.clientStep_cases hy
    exact Or.inl rfl

/-! ## What the two functions of a call have done -/

section Run

variable (codecs : StreamCodecs V) (interface : Interface) (service : List Char → List V → S → (Nat → V) × S)
  (jobs : RequestId → Nat → Job S V)

/-- What holds of the logs while both sides run generated code. -/
structure Going (x : ByteConnection) : Prop where
  requests : ∀ r n, (x.calls r n).wrote <+: (jobs r n).request codecs.toCodecs
  handled : ∀ r n, (x.handlers r n).Shows
    ((jobs r n).handle codecs.toCodecs interface service (x.handlers r n)).world.stream
  calls : ∀ r n, (x.calls r n).delivered = (x.calls r n).received
  handlers : ∀ r n, (x.handlers r n).delivered = (x.handlers r n).received

theorem going_established : established.Going codecs interface service jobs :=
  ⟨fun _ _ => List.nil_prefix, fun _ _ => ⟨rfl, rfl⟩, fun _ _ => rfl, fun _ _ => rfl⟩

variable {codecs interface service jobs}

/-- **What a handler did with the part of the request it has read.** -/
theorem handled_of_part {j : Job S V} (hj : j.Admitted codecs.toCodecs interface service)
    (hlen : interface.methods.length ≤ 256) {l : Log} (hle : l.received <+: j.request codecs.toCodecs) :
    Serving.Handled codecs.toCodecs service j.method j.id j.args ⟨l.endpoint, j.state, []⟩
      (j.handle codecs.toCodecs interface service l) :=
  streamHandler_once (w := ⟨l.endpoint, j.state, []⟩) hlen hj.method .failure hj.args hj.answer hle

/-- **A handler that wrote has read all of its request**, and what it wrote is of its response. -/
theorem asked_of_wrote {j : Job S V} (hj : j.Admitted codecs.toCodecs interface service)
    (hlen : interface.methods.length ≤ 256) {l : Log} (hle : l.received <+: j.request codecs.toCodecs)
    (hshows : l.Shows (j.handle codecs.toCodecs interface service l).world.stream) :
    l.wrote <+: j.response codecs.toCodecs service ∧ (l.wrote ≠ [] → l.received = j.request codecs.toCodecs) ∧
      (l.flushed = true → l.wrote = j.response codecs.toCodecs service) := by
  rw [← hshows.wrote, ← hshows.flushed]
  cases handled_of_part hj hlen hle with
  | unread hinv hout hflushed =>
    rw [hout, hflushed]
    exact ⟨List.nil_prefix, fun h => absurd rfl h, fun h => by cases h⟩
  | called hentry hinv hrequest written hout hresponse hflushed =>
    rw [hout]
    refine ⟨hresponse, fun _ => hrequest, fun h => ?_⟩
    rcases hflushed h with hnot | hwhole
    · cases hnot
    · exact hwhole

variable (hjobs : ∀ r n, (jobs r n).Admitted codecs.toCodecs interface service)

include hjobs

/-- **A call that succeeded has read the whole response**, which was flushed. -/
theorem answered_of_success (hlen : interface.methods.length ≤ 256) (hx : x.Framed ts tc)
    (hg : x.Going codecs interface service jobs) (r : RequestId) (n : Nat)
    (hsucc : ((jobs r n).call codecs.toCodecs (x.calls r n)).result = .success) :
    (x.calls r n).received = (x.handlers r n).wrote ∧ (x.handlers r n).wrote ≠ [] ∧ (x.handlers r n).flushed = true ∧
      ∀ i, i < (jobs r n).method.responseParams.length →
        ((jobs r n).call codecs.toCodecs (x.calls r n)).outputs i = some ((jobs r n).answer service i) := by
  obtain ⟨hcall, hhandler⟩ := hx.readsFrom r n
  have hread := hhandler.received.trans (hg.requests r n)
  obtain ⟨hresponse, -, -⟩ := asked_of_wrote (hjobs r n) hlen hread (hg.handled r n)
  obtain ⟨-, hanswer⟩ := ClientState.run_client (jobs r n).id (hjobs r n).args
    (e := (x.calls r n).endpoint) rfl .failure
  obtain ⟨hwhole, houtputs⟩ := hanswer hsucc _ (hjobs r n).answer (hcall.received.trans hresponse)
  have hwhole : (x.calls r n).received = (jobs r n).response codecs.toCodecs service := hwhole
  have hsame : (x.calls r n).received = (x.handlers r n).wrote :=
    hcall.received.eq_of_length_le (by rw [hwhole]; exact hresponse.length_le)
  have hne : (x.handlers r n).wrote ≠ [] := by
    rw [← hsame, hwhole]
    exact responseBytes_ne_nil codecs (hjobs r n).answer
  exact ⟨hsame, hne, ((hx.owing r).flushed_of_read (hx.sound.lanes r) n).1 hsame hne, houtputs⟩

/-- **Generated code keeps to the protocol.** -/
theorem Going.conforms (hlen : interface.methods.length ≤ 256) (hx : x.Framed ts tc)
    (hg : x.Going codecs interface service jobs)
    (ha : x.Generated codecs.toCodecs interface service jobs a) : x.Conforms a := by
  have hread : ∀ r n, (x.handlers r n).received <+: (jobs r n).request codecs.toCodecs := fun r n =>
    (hx.readsFrom r n).2.received.trans (hg.requests r n)
  cases a with
  | client a =>
    cases a with
    | createRequestStream o => exact ha
    | deleteRequestStream o =>
      refine ha.imp_right fun hsucc => ?_
      obtain ⟨hsame, hne, hflushed, -⟩ := answered_of_success hjobs hlen hx hg _ _ hsucc
      exact ⟨hflushed, hne, (hg.calls _ _).trans hsame⟩
    | _ => trivial
  | server a =>
    cases a with
    | event e =>
      cases e with
      | write o bytes =>
        let r := x.server.requestIds o
        let n := x.handlerCnt r - 1
        obtain ⟨-, hwrites, hshows⟩ := ha o rfl
        obtain ⟨-, hasked, -⟩ := asked_of_wrote (hjobs r n) hlen (l := (x.handlers r n).note (.wrote bytes)) (hread r n)
          hshows
        have hwhole : (x.handlers r n).received = (jobs r n).request codecs.toCodecs := hasked hwrites
        have hsame : (x.handlers r n).received = (x.calls r n).wrote :=
          (hx.readsFrom r n).2.received.eq_of_length_le (by rw [hwhole]; exact (hg.requests r n).length_le)
        have hne : (x.calls r n).wrote ≠ [] := by
          rw [← hsame, hwhole]
          exact List.cons_ne_nil _ _
        exact ⟨((hx.owing r).flushed_of_read (hx.sound.lanes r) n).2 hsame hne, (hg.handlers r n).trans hsame⟩
      | flush o =>
        let r := x.server.requestIds o
        let n := x.handlerCnt r - 1
        obtain ⟨-, -, hshows⟩ := ha o rfl
        obtain ⟨-, -, hflushed⟩ := asked_of_wrote (hjobs r n) hlen (l := (x.handlers r n).note .flushed) (hread r n) hshows
        have hwhole : (x.handlers r n).wrote = (jobs r n).response codecs.toCodecs service := hflushed rfl
        show (x.handlers r n).wrote ≠ []
        rw [hwhole]
        exact responseBytes_ne_nil codecs (hjobs r n).answer
      | _ => trivial
    | _ => trivial
  | _ => trivial

/-- **A step of generated code leaves every function where its log says.** -/
theorem Going.step (hx : x.Framed ts tc) (hg : x.Going codecs interface service jobs)
    (ha : x.Generated codecs.toCodecs interface service jobs a) (hs : x.step a = some x') :
    x'.Going codecs interface service jobs := by
  have hcalls : ∀ r n, (x'.calls r n).wrote <+: (jobs r n).request codecs.toCodecs ∧
      (x'.calls r n).delivered = (x'.calls r n).received := by
    intro r n
    rcases calls_of_step hx hs r n with hsame | ⟨bytes, harrived⟩ | ⟨e, o, rfl, hown, rfl, rfl, hnote⟩
    · rw [hsame]
      exact ⟨hg.requests r n, hg.calls r n⟩
    · rw [harrived]
      exact ⟨hg.requests r n, hg.calls r n⟩
    · obtain ⟨hreads, hshows⟩ := ha o hown
      rw [hnote]
      refine ⟨?_, Log.delivered_note (hg.calls _ _) hreads⟩
      rw [← hshows.wrote]
      exact (ClientState.run_client _ (hjobs _ _).args rfl .failure).1
  have hhandlers : ∀ r n, (x'.handlers r n).Shows
        ((jobs r n).handle codecs.toCodecs interface service (x'.handlers r n)).world.stream ∧
      (x'.handlers r n).delivered = (x'.handlers r n).received := by
    intro r n
    rcases handlers_of_step hx hs r n with hsame | ⟨bytes, harrived⟩ | ⟨e, o, rfl, hown, rfl, rfl, hnote⟩
    · rw [hsame]
      exact ⟨hg.handled r n, hg.handlers r n⟩
    · rw [harrived]
      exact ⟨⟨(hg.handled r n).wrote, (hg.handled r n).flushed⟩, hg.handlers r n⟩
    · obtain ⟨hreads, -, hshows⟩ := ha o hown
      rw [hnote]
      exact ⟨hshows, Log.delivered_note (hg.handlers _ _) hreads⟩
  exact ⟨fun r n => (hcalls r n).1, fun r n => (hhandlers r n).1, fun r n => (hcalls r n).2, fun r n => (hhandlers r n).2⟩

theorem going_of_exec (hlen : interface.methods.length ≤ 256) (as : List Action)
    (hG : Run.Meets step (Generated codecs.toCodecs interface service jobs) established as)
    (hrun : Run.exec step established as = some x) :
    (∃ ts tc, x.Framed ts tc) ∧ x.Going codecs interface service jobs :=
  Run.invariant (P := fun x => (∃ ts tc, x.Framed ts tc) ∧ x.Going codecs interface service jobs)
    (fun _ _ _ hx ha hs => by
      obtain ⟨⟨ts, tc, hx⟩, hg⟩ := hx
      exact ⟨hx.step (hg.conforms hjobs hlen hx ha) hs, hg.step hjobs hx ha hs⟩)
    as ⟨⟨[], [], framed_established⟩, going_established codecs interface service jobs⟩ hG hrun

end Run

/-- The service function of a job was called once, with its arguments, and the client function has what it returned. -/
structure Answered (service : List Char → List V → S → (Nat → V) × S) (j : Job S V) (t : ClientState Endpoint V)
    (h : StreamHandled (Serving S V)) : Prop where
  entry : h.entry = some j.id
  invocations : h.world.invocations = [(j.method.name, j.method.requestValues j.args)]
  outputs : ∀ i, i < j.method.responseParams.length → t.outputs i = some (j.answer service i)

/-- The service of `sums`. -/
def adding (_ : List Char) (values : List Content) (_ : Unit) : (Nat → Content) × Unit :=
  match values with
  | [.uint32 a, .uint32 b] => (fun _ => .uint32 (a + b), ())
  | _ => (fun _ => .uint32 0, ())

/-- `add` is called with 700 and 77, and its response is read. -/
def added : List Action :=
  [.client (.createRequestStream 0), .client (.event (.write 0 [0])), .client (.event (.write 0 [188, 5])),
    .client (.event (.write 0 [77])), .client (.event (.flush 0)), .client (.event .writer), .clientWrites [],
    .server (.event .reader), .serverReads (Vector.replicate maxPacketSize 0) 0, .server (.event (.read 0 1)),
    .server (.event (.get 0)), .server (.event (.read 0 2)), .server (.event (.read 0 1)),
    .server (.event (.write 0 [137, 6])), .server (.event (.flush 0)), .server (.event .writer), .serverWrites [],
    .client (.event .reader), .clientReads (Vector.replicate maxPacketSize 0), .client (.event (.read 0 2)),
    .client (.event (.get 0)), .client (.deleteRequestStream 0)]

/-- Every call adds 700 and 77. -/
def adds : Job Unit Content :=
  ⟨sums.methods.head (by decide), 0, fun i => if i = 0 then .uint32 700 else .uint32 77, ()⟩

end ByteConnection
end Mrpc
