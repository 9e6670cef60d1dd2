import MultiplexingRpc.CrossTalk
/-!
# ProtocolErrors — packets that should not have come

The readers of both sides give up the connection when they get a packet that does not fit the request streams there are:
the first packet of a request whose id is taken, or a later packet of one that has no stream.  A handler's stream is
released after its response was handed to the writer; so long as no request begins in between, peers that keep to the
protocol never send such a packet.
-/
namespace Mrpc

namespace Lane

/-- What conforming peers add to the invariant: the later packets of a request are not empty, a handler writes when it
has the whole request, and one that is done, or gone, has written and flushed. -/
structure Orderly (k : Lane) : Prop where
  later : ∀ f ∈ k.toServer ++ k.client.outbound, f.type.isFirst = false → f.body ≠ []
  asked : ∀ n, (k.handlers n).wrote ≠ [] →
    (k.calls n).flushed = true ∧ (k.handlers n).arrived = (k.calls n).wrote
  wrote : (k.server.active = true → k.server.stage = .done) → 0 < k.handlerCnt →
    (k.handlers (k.handlerCnt - 1)).wrote ≠ []
  flushed : k.server.active = true → k.server.stage = .done → (k.handlers (k.handlerCnt - 1)).flushed = true

variable {k k' : Lane}

theorem flushed_note {logs : Nat → Log} {i n : Nat} (d : Deed) (h : (logs n).flushed = true) :
    (note logs i d n).flushed = true := by
  by_cases hn : n = i
  · subst hn
    rw [note_self]
    cases d with
    | flushed => rfl
    | _ => exact h
  · rwa [note_of_ne hn]

namespace Orderly

/-- **A call that flushed does not write any more.** -/
theorem wrote_client (h : k.Inv) {d : Deed} {e : End} (hm : k.client.Move d e) (n : Nat)
    (hf : (k.calls n).flushed = true) : (note k.calls (k.callCnt - 1) d n).wrote = (k.calls n).wrote := by
  by_cases hn : n = k.callCnt - 1
  · subst hn
    rw [note_self]
    cases hm with
    | write hd ha hs | put hd ha hs => exact absurd (h.calls.flushed ha hf) hs
    | stay | deaf | mute | flush | returned | failed => rfl
  · rw [note_of_ne hn]

theorem client (h : k.Orderly) (hi : k.Inv) {d : Deed} {e : End} (hm : k.client.Move d e) (w : Bool) :
    Orderly { k with client := e, calls := note k.calls (k.callCnt - 1) d, working := w } := by
  refine ⟨?_, fun n hn => ?_, h.wrote, h.flushed⟩
  · have hemit : ∀ f, (f.type.isFirst = false → f.body ≠ []) → ∀ g ∈ k.toServer ++ k.client.emit f,
        g.type.isFirst = false → g.body ≠ [] := fun f hf g hg => by
      unfold End.emit at hg
      split at hg
      · rw [← List.append_assoc] at hg
        rcases List.mem_append.1 hg with hg | hg
        · exact h.later g hg
        · rw [List.mem_singleton.1 hg]
          exact hf
      · exact h.later g hg
    cases hm with
    | stay | deaf | write | returned | failed => exact h.later
    | mute => exact fun f hf => h.later f (List.mem_append_left _ (by simpa using hf))
    | put hd ha hs hbytes hfirst hbody => exact hemit _ fun _ => hbody
    | @flush f ha hs hbytes hfirst hbody =>
      refine hemit f fun hf => ?_
      cases hst : k.client.stage with
      | unsent =>
        rw [hfirst.2 hst] at hf
        cases hf
      | sent => exact hbody hst
      | done => exact absurd hst hs
  · obtain ⟨hf, hw⟩ := h.asked n hn
    refine ⟨flushed_note _ hf, ?_⟩
    dsimp only
    rw [wrote_client hi hm n hf]
    exact hw

theorem server (h : k.Orderly) (hi : k.Inv) {d : Deed} {e : End} (hm : k.server.Move d e)
    (hw : ∀ bytes, d = .wrote bytes → k.Asked) (hf : d = .flushed → (k.handlers (k.handlerCnt - 1)).wrote ≠ []) :
    Orderly { k with server := e, handlers := note k.handlers (k.handlerCnt - 1) d } := by
  refine ⟨h.later, fun n hn => ?_, fun hdone hpos => ?_, fun ha hdone => ?_⟩
  · dsimp only at hn ⊢
    rw [arrived_note_of hm.arriving]
    by_cases hold : (k.handlers n).wrote = []
    · by_cases hne : n = k.handlerCnt - 1
      · subst hne
        rw [note_self, Log.wrote_note, hold, List.nil_append] at hn
        obtain ⟨bytes, rfl⟩ : ∃ bytes, d = .wrote bytes := by
          cases d with
          | wrote bytes => exact ⟨bytes, rfl⟩
          | nothing | flushed | arrived | returned => exact absurd rfl hn
        obtain ⟨hflushed, hread⟩ := hw bytes rfl
        refine ⟨hflushed, (hi.requests _).eq_of_length_le ?_⟩
        rw [← hread]
        exact (hi.handlers.delivered _).length_le
      · rw [note_of_ne hne] at hn
        exact absurd hold hn
    · exact h.asked n hold
  · dsimp only at hdone ⊢
    rw [note_self, Log.wrote_note]
    have hkeep : e.active = k.server.active → e.stage = k.server.stage →
        (k.handlers (k.handlerCnt - 1)).wrote ++ d.bytes ≠ [] := fun ha hs => by
      rw [ha, hs] at hdone
      exact List.append_ne_nil_of_left_ne_nil (h.wrote hdone hpos) _
    cases hm with
    | stay | deaf | mute | write | returned | failed => exact hkeep rfl rfl
    | put hd ha => exact absurd (hdone ha) (by simp)
    | flush => exact List.append_ne_nil_of_left_ne_nil (hf rfl) _
  · dsimp only at ha hdone ⊢
    rw [note_self]
    cases hm with
    | stay | deaf | mute | returned | failed => exact h.flushed ha hdone
    | write hd ha' hs => exact absurd hdone hs
    | put => cases hdone
    | flush => rfl

theorem serverReceive (h : k.Orderly) {f : Frame} {rest : List Frame} (hs : k.toServer = f :: rest)
    (hle : ∀ n, (note k.handlers (k.handlerCnt - 1) (.arrived f.body) n).arrived <+: (k.calls n).wrote) :
    Orderly { k with
      server := { k.server with inbound := k.server.inbound ++ f.body }
      toServer := rest
      handlers := note k.handlers (k.handlerCnt - 1) (.arrived f.body) } := by
  have hwrote : ∀ n, (note k.handlers (k.handlerCnt - 1) (.arrived f.body) n).wrote = (k.handlers n).wrote :=
    fun n => wrote_note_of rfl _ n
  refine ⟨fun g hg => h.later g ?_, fun n hn => ?_, fun hdone hpos => ?_, fun ha hdone => ?_⟩
  · rw [hs]
    exact List.mem_cons_of_mem _ hg
  · dsimp only at hn ⊢
    rw [hwrote] at hn
    obtain ⟨hf, heq⟩ := h.asked n hn
    refine ⟨hf, (hle n).eq_of_length_le ?_⟩
    rw [← heq]
    by_cases hne : n = k.handlerCnt - 1
    · subst hne
      rw [note_self, Log.arrived_note]
      simp
    · rw [note_of_ne hne]
  · dsimp only
    rw [hwrote]
    exact h.wrote hdone hpos
  · dsimp only
    rw [note_self]
    exact h.flushed ha hdone

theorem handlerBegin (h : k.Orderly) (hi : k.Inv) {f : Frame} {rest : List Frame} (hs : k.toServer = f :: rest) :
    Orderly { k with
      server := k.server.begin_ f.body
      toServer := rest
      handlers := note k.handlers k.handlerCnt (.arrived f.body)
      handlerCnt := k.handlerCnt + 1 } := by
  refine ⟨fun g hg => h.later g ?_, fun n hn => ?_, fun hdone => ?_, fun _ hdone => ?_⟩
  · rw [hs]
    exact List.mem_cons_of_mem _ hg
  · dsimp only at hn ⊢
    rw [wrote_note_of rfl] at hn
    have hne : n ≠ k.handlerCnt := fun hne => by
      subst hne
      rw [hi.handlers.empty _ (Nat.le_refl _)] at hn
      exact hn rfl
    rw [note_of_ne hne]
    exact h.asked n hn
  · exact absurd (hdone rfl) (by simp [End.begin_])
  · cases hdone

/-- **Every step keeps it**, if a handler returns after it has flushed. -/
theorem step (h : k.Orderly) (hi : k.Inv) {act : Act} (hs : Step k act k')
    (hreturn : act = .serverFinish → (k.handlers (k.handlerCnt - 1)).flushed = true) : k'.Orderly := by
  have hi' := hi.step hs
  cases hs with
  | client hm => exact h.client hi hm _
  | @clientSend f rest hout =>
    refine ⟨fun g hg => h.later g ?_, h.asked, h.wrote, h.flushed⟩
    rw [hout]
    simpa using hg
  | callBegin | callFinish => exact ⟨h.later, h.asked, h.wrote, h.flushed⟩
  | clientReceive =>
    refine ⟨h.later, fun n hn => ?_, h.wrote, h.flushed⟩
    dsimp only
    rw [wrote_note_of rfl]
    exact ⟨flushed_note _ (h.asked n hn).1, (h.asked n hn).2⟩
  | clientReject => exact ⟨h.later, h.asked, h.wrote, h.flushed⟩
  | server hm hw hf => exact h.server hi hm hw hf
  | serverSend => exact ⟨h.later, h.asked, h.wrote, h.flushed⟩
  | handlerBegin hs => exact h.handlerBegin hi hs
  | serverReceive hs => exact h.serverReceive hs hi'.requests
  | serverReject hs =>
    refine ⟨fun g hg => h.later g ?_, h.asked, h.wrote, h.flushed⟩
    rw [hs]
    exact List.mem_cons_of_mem _ hg
  | handlerFinish ha =>
    exact ⟨h.later, h.asked, fun _ => h.wrote fun ha => hi.handlers.flushed ha (hreturn rfl), nofun⟩

/-- **Nothing of a request is on its way** to a handler that is done, or gone. -/
theorem eq_nil (h : k.Orderly) {T M : List Frame} (hr : Request k T M)
    (hdone : k.server.active = true → k.server.stage = .done) : T = [] := by
  obtain hz | hpos := Nat.eq_zero_or_pos k.handlerCnt
  · exact hr.none hz
  · refine eq_nil_of_bodies ?_ fun f hf => h.later f ?_ (hr.later f hf)
    · have hle := (hr.current hpos).le.length_le
      rw [(h.asked _ (h.wrote hdone hpos)).2, List.length_append] at hle
      exact List.eq_nil_of_length_eq_zero (by omega)
    · rw [hr.line]
      exact List.mem_append_left _ hf

/-- **A later packet of a request finds its handler.** -/
theorem active_of_later (h : k.Orderly) (hi : k.Inv) {f : Frame} {rest : List Frame} (hs : k.toServer = f :: rest)
    (hl : k.server.listening = true) (hf : f.type.isFirst = false) : k.server.active = true := by
  by_contra ha
  obtain ⟨T, M, hr⟩ := hi.request hl
  obtain ⟨T', hT, -⟩ := hr.eq_cons_of_later hs hf
  rw [h.eq_nil hr fun ha' => absurd ha' ha] at hT
  cases hT

/-- **The first packet of a request finds a handler only if that has flushed.** -/
theorem flushed_of_first (h : k.Orderly) (hi : k.Inv) {f : Frame} {rest : List Frame} (hs : k.toServer = f :: rest)
    (hl : k.server.listening = true) (hw : k.working = true) (hf : f.type.isFirst = true)
    (ha : k.server.active = true) : (k.handlers (k.handlerCnt - 1)).flushed = true := by
  obtain ⟨T, M, hr⟩ := hi.request hl
  have hlt := hr.handlerCnt_lt hi.cnt.1 hs hf
  have hresp := hi.response (hi.working hw)
  have hca : k.client.active = true := by
    by_contra hca
    exact absurd (hresp.answered (by simpa using hca) hw) (Nat.ne_of_lt hlt)
  exact h.flushed ha ((hresp.quiet (Or.inl ⟨hca, hlt⟩)).2 ha)

end Orderly

/-- **A response finds its call.** -/
theorem Inv.active_of_response (h : k.Inv) {f : Frame} {rest : List Frame} (hs : k.toClient = f :: rest)
    (hw : k.working = true) : k.client.active = true := by
  by_contra hca
  have hnil := ((h.response (h.working hw)).quiet (Or.inr ⟨by simpa using hca, hw⟩)).1
  rw [hs] at hnil
  cases hnil

end Lane

/-! ## Both sides stay at work -/

namespace StreamProcessor

/-- **A turn leaves a working processor at work**, unless the connection breaks. -/
theorem Turn.stays_working {s s' : StreamProcessor} {e : Event} (hs : s.Sound) (hp : s.Phased) (ht : Turn s e s')
    (hw : s.state = .working) (he : e ≠ .readerFail ∧ e ≠ .writerResult .failure) : s'.state = .working := by
  cases hown : e.owner with
  | some o =>
    obtain ⟨-, ps, f, pool, queue, -, -, rfl⟩ := ht.ownerFrame hs.fiberOk hown
    exact hw
  | none =>
    cases ht.system hown with
    | readerWriterStopped hr =>
      have hphase := hp.phaseOk
      rw [PhaseOk, hr] at hphase
      rw [hw] at hphase
      cases hphase.1
    | readerFail => exact absurd rfl he.1
    | writeFail | flushFail => exact absurd rfl he.2
    | _ => exact hw

end StreamProcessor

namespace Connection

/-- A client and handlers that keep to the protocol, on a connection that nobody breaks.  A call ends when it has read
the whole response; a handler writes when it has read the whole request, flushes a response that is not empty, and
returns after that. -/
def Conforming (x : Connection) : Action → Prop
  | .client (.deleteRequestStream o) => (x.lane (x.client.core.requestIds o)).Answered
  | .client .stopAsync | .client (.event .readerFail) | .client (.event (.writerResult .failure)) => False
  | .client _ => True
  | .server (.event (.write o _)) => (x.lane (x.server.requestIds o)).Asked
  | .server (.event (.flush o)) =>
    (x.handlers (x.server.requestIds o) (x.handlerCnt (x.server.requestIds o) - 1)).wrote ≠ []
  | .server (.handlerReturn o result) => result = .success ∧
    (x.handlers (x.server.requestIds o) (x.handlerCnt (x.server.requestIds o) - 1)).flushed = true
  | .server .stopAsync | .server (.event .readerFail) | .server (.event (.writerResult .failure)) => False
  | .server _ => True

/-- The handler of `r` has flushed its response, and has yet to return. -/
def Returning (x : Connection) (r : RequestId) : Prop :=
  (x.server.active r).isSome = true ∧ (x.handlers r (x.handlerCnt r - 1)).flushed = true

/-- No request begins on the server before such a handler has returned. -/
def Prompt (x : Connection) : Action → Prop
  | .server (.receive f _) => f.type.isFirst = true → ∀ r, ¬ x.Returning r
  | _ => True

/-- A reader takes the branch for a packet that should not have come. -/
def ProtocolError (x : Connection) : Action → Prop
  | .client (.receive f) => x.client.core.active f.requestId = none
  | .server (.receive f _) => f.type.isFirst = (x.server.active f.requestId).isSome
  | _ => False

instance (x : Connection) (a : Action) : Decidable (x.Conforming a) :=
  match a with
  | .client (.deleteRequestStream _) => inferInstanceAs (Decidable (Lane.Answered _))
  | .client .stopAsync | .client (.event .readerFail) | .client (.event (.writerResult .failure)) | .server .stopAsync
  | .server (.event .readerFail) | .server (.event (.writerResult .failure)) => inferInstanceAs (Decidable False)
  | .server (.event (.write _ _)) => inferInstanceAs (Decidable (Lane.Asked _))
  | .server (.event (.flush _)) => inferInstanceAs (Decidable (_ ≠ _))
  | .server (.handlerReturn _ _) => inferInstanceAs (Decidable (_ ∧ _))
  | .client (.event (.read _ _)) | .client (.event (.get _)) | .client (.event (.timeout _))
  | .client (.event (.write _ _)) | .client (.event (.flush _)) | .client (.event (.acquire _))
  | .client (.event .reader) | .client (.event .writer)
  | .client (.event (.writerResult .success)) | .client .processStream | .client (.createRequestStream _)
  | .client (.wake _) | .client (.receive _) | .server (.event (.read _ _)) | .server (.event (.get _))
  | .server (.event (.timeout _)) | .server (.event (.acquire _)) | .server (.event .reader) | .server (.event .writer)
  | .server (.event (.writerResult .success)) | .server .start | .server .readerStart | .server (.receive _ _) =>
    inferInstanceAs (Decidable True)

instance (x : Connection) (r : RequestId) : Decidable (x.Returning r) := inferInstanceAs (Decidable (_ ∧ _))

instance (x : Connection) (a : Action) : Decidable (x.Prompt a) :=
  match a with
  | .server (.receive _ _) => inferInstanceAs (Decidable (_ → ∀ _, ¬ _))
  | .server (.event _) | .server .start | .server .readerStart | .server (.handlerReturn _ _) | .server .stopAsync
  | .client _ => inferInstanceAs (Decidable True)

/-- What holds of conforming peers. -/
structure Serving (x : Connection) : Prop where
  sound : x.Sound
  client : x.client.core.state = .working
  server : x.server.state = .working
  lanes : ∀ r, (x.lane r).Orderly

variable {x x' : Connection}

/-- **The client stays at work** when it gets no packet of a call it does not know. -/
theorem Serving.client_working (h : x.Serving) {a : ClientStreamProcessor.Action} {c : ClientStreamProcessor}
    (hC : x.Conforming (.client a)) (herr : ¬ x.ProtocolError (.client a)) (hc : x.client.step a = some c)
    (ha : a ≠ .processStream) : c.core.state = .working := by
  cases ClientStreamProcessor.outcome_of_step hc with
  | event ht =>
    refine ht.stays_working h.sound.client.sound.core h.sound.client.phased h.client ⟨fun he => ?_, fun he => ?_⟩
    · subst he
      exact hC
    · subst he
      exact hC
  | processNothing | process => exact absurd rfl ha
  | unexpected hr hslot => exact absurd hslot herr
  | deleted =>
    rw [StreamProcessor.releaseStream_eq]
    exact h.client
  | stopAsync => exact hC.elim
  | _ => exact h.client

theorem Serving.server_working (h : x.Serving) {a : ServerStreamProcessor.Action} {s : StreamProcessor}
    (hC : x.Conforming (.server a)) (herr : ¬ x.ProtocolError (.server a))
    (hs : ServerStreamProcessor.step x.server a = some s) (ha : a ≠ .start) : s.state = .working := by
  cases ServerStreamProcessor.outcome_of_step hs with
  | event ht =>
    refine ht.stays_working h.sound.server.core h.sound.server.phased h.server ⟨fun he => ?_, fun he => ?_⟩
    · subst he
      exact hC
    · subst he
      exact hC
  | start => exact absurd rfl ha
  | unexpected hr hf => exact absurd hf herr
  | returned =>
    rw [StreamProcessor.releaseStream_eq]
    exact h.server
  | failed => cases hC.1
  | stopAsync => exact hC.elim
  | _ => exact h.server

/-- What a reader gets is the head of its transport, and of what is there of its request id. -/
theorem toServer_of_receive {f : Frame} {o : StreamNo} (hs : x.step (.server (.receive f o)) = some x') :
    (∃ p, x.server.reader = .reading p) ∧ ∃ rest, (x.lane f.requestId).toServer = f :: rest := by
  obtain ⟨toServer, s, hremains, hs, -⟩ := serverStep_cases hs
  refine ⟨?_, ?_⟩
  · cases ServerStreamProcessor.outcome_of_step hs with
    | begun hr | continued hr | unexpected hr => exact ⟨_, hr⟩
  · have hfs := ServerStreamProcessor.remains_receive hremains
    exact ⟨toServer.filter fun g => g.requestId = f.requestId, by simp [lane, hfs]⟩

theorem toClient_of_receive {f : Frame} (hs : x.step (.client (.receive f)) = some x') :
    ∃ rest, (x.lane f.requestId).toClient = f :: rest := by
  obtain ⟨toClient, c, hremains, -, -⟩ := clientStep_cases hs
  have hfs := ClientStreamProcessor.remains_receive hremains
  exact ⟨toClient.filter fun g => g.requestId = f.requestId, by simp [lane, hfs]⟩

/-- **No packet comes that should not.** -/
theorem Serving.not_protocolError (h : x.Serving) {a : Action} (hp : x.Prompt a) (hs : x.step a = some x') :
    ¬ x.ProtocolError a := by
  have hwork : ∀ r, (x.lane r).working = true := fun r => decide_eq_true h.client
  intro herr
  cases a with
  | client a =>
    cases a with
    | receive f =>
      obtain ⟨rest, hfs⟩ := toClient_of_receive hs
      have ha := (h.sound.lanes f.requestId).active_of_response hfs (hwork _)
      have hnone : x.client.core.active f.requestId = none := herr
      simp [lane, StreamProcessor.endOf, hnone] at ha
    | _ => exact herr
  | server a =>
    cases a with
    | receive f o =>
      obtain ⟨⟨p, hr⟩, rest, hfs⟩ := toServer_of_receive hs
      have hl : (x.lane f.requestId).server.listening = true := by
        show x.server.reader.listens = true
        rw [hr]
        rfl
      have heq : f.type.isFirst = (x.server.active f.requestId).isSome := herr
      have hactive : (x.lane f.requestId).server.active = (x.server.active f.requestId).isSome := rfl
      cases hf : f.type.isFirst with
      | true =>
        have hsome := heq.symm.trans hf
        exact hp hf f.requestId ⟨hsome, (h.lanes f.requestId).flushed_of_first (h.sound.lanes _) hfs hl (hwork _) hf
          (hactive.trans hsome)⟩
      | false =>
        have ha := (h.lanes f.requestId).active_of_later (h.sound.lanes _) hfs hl hf
        rw [hactive, ← heq, hf] at ha
        cases ha
    | _ => exact herr

theorem Serving.permitted (h : x.Serving) {a : Action} (hC : x.Conforming a) (herr : ¬ x.ProtocolError a)
    (hs : x.step a = some x') : x.Permitted a := by
  cases a with
  | client a =>
    obtain ⟨toClient, c, hremains, hc, -⟩ := clientStep_cases hs
    have ha := ClientStreamProcessor.ne_processStream_of_remains hremains
    refine ⟨fun hleaves => ?_, fun o ho => ?_⟩
    · obtain ⟨-, c', hc', hst⟩ := hleaves
      rw [hc] at hc'
      cases hc'
      exact absurd (h.client_working hC herr hc ha) hst
    · subst ho
      exact Or.inr hC
  | server a =>
    cases a with
    | event e => cases e <;> first | exact hC | exact trivial
    | _ => trivial

/-- **A conforming step keeps both sides at work.** -/
theorem Serving.step (h : x.Serving) {a : Action} (hC : x.Conforming a) (hp : x.Prompt a) (hs : x.step a = some x') :
    x'.Serving := by
  have herr := h.not_protocolError hp hs
  have hperm := h.permitted hC herr hs
  have hsound := h.sound.step hperm hs
  have hlanes : ∀ r, (x'.lane r).Orderly := fun r => by
    refine (h.lanes r).step (h.sound.lanes r) (lane_step h.sound hperm hs r) fun hact => ?_
    cases a with
    | client a => cases hact
    | server a =>
      cases a with
      | handlerReturn o result =>
        simp only [laneAct] at hact
        split at hact
        · rename_i hr
          subst hr
          exact hC.2
        · cases hact
      | _ => cases hact
  cases a with
  | client a =>
    obtain ⟨toClient, c, hremains, hc, rfl⟩ := clientStep_cases hs
    have ha := ClientStreamProcessor.ne_processStream_of_remains hremains
    exact ⟨hsound, h.client_working hC herr hc ha, h.server, hlanes⟩
  | server a =>
    obtain ⟨toServer, s, hremains, hstep, rfl⟩ := serverStep_cases hs
    have ha : a ≠ .start := fun ha => by
      subst ha
      cases hremains
    exact ⟨hsound, h.client, h.server_working hC herr hstep ha, hlanes⟩

theorem serving_established : established.Serving :=
  ⟨sound_established, rfl, rfl,
    fun _ => ⟨nofun, fun _ hn => absurd rfl hn, fun _ hpos => absurd hpos (Nat.lt_irrefl 0), nofun⟩⟩

/-- **Conforming peers never trigger a protocol error**, in every run in which no request begins on the server while a
handler that has flushed its response has yet to return; both sides are still at work after it. -/
theorem no_protocolError (as : List Action) (a : Action) (x x' : Connection)
    (hC : Run.Meets step (fun x a => x.Conforming a ∧ x.Prompt a) established (as ++ [a]))
    (hrun : Run.exec step established as = some x) (hs : x.step a = some x') :
    ¬ x.ProtocolError a ∧ x'.client.core.state = .working ∧ x'.server.state = .working := by
  obtain ⟨has, ⟨hconf, hprompt⟩, -⟩ := Run.meets_append as hrun hC
  have h : x.Serving :=
    Run.invariant (P := Serving) (fun _ _ _ h hC hs => h.step hC.1 hC.2 hs) as serving_established has hrun
  have h' := h.step hconf hprompt hs
  exact ⟨h.not_protocolError hprompt hs, h'.client, h'.server⟩

/-- The handler returns as soon as it has flushed its response, and the call ends. -/
def promptReply : List Action :=
  [.server (.event (.write 0 [9])), .server (.event (.flush 0)), .server (.handlerReturn 0 .success),
    .server (.event .writer), .server (.event (.writerResult .success)), .client (.event .reader),
    .client (.receive ⟨.single, 0, [9]⟩), .client (.event (.read 0 1)), .client (.event (.get 0)),
    .client (.deleteRequestStream 0)]

/-- A second call under the same id, up to the server's reader. -/
def nextCall : List Action :=
  [.client (.event (.writerResult .success)), .client (.createRequestStream 0), .client (.event (.write 0 [7])),
    .client (.event (.flush 0)), .client (.event .writer), .client (.event (.writerResult .success)),
    .server (.event .reader)]

/-- The second call's packet finds no stream under its id. -/
theorem no_protocolError_nextCall : ∃ x x', Run.exec step established (request ++ promptReply ++ nextCall) = some x ∧
    x.step (.server (.receive ⟨.single, 0, [7]⟩ 0)) = some x' ∧
      ¬ x.ProtocolError (.server (.receive ⟨.single, 0, [7]⟩ 0)) := by
  have hC : Run.Meets step (fun x a => x.Conforming a ∧ x.Prompt a) established
      (request ++ promptReply ++ nextCall ++ [.server (.receive ⟨.single, 0, [7]⟩ 0)]) :=
    Run.meets_of_check _ (by decide +kernel)
  obtain ⟨x', hrun⟩ : ∃ x', Run.exec step established
      (request ++ promptReply ++ nextCall ++ [.server (.receive ⟨.single, 0, [7]⟩ 0)]) = some x' :=
    Option.isSome_iff_exists.1 (by decide +kernel)
  obtain ⟨x, hx⟩ : ∃ x, Run.exec step established (request ++ promptReply ++ nextCall) = some x :=
    Option.isSome_iff_exists.1 (by decide +kernel)
  rw [Run.exec_append_of _ _ hx] at hrun
  obtain ⟨_, hs, -⟩ := Run.exec_cons.1 hrun
  exact ⟨x, _, hx, hs, (no_protocolError _ _ x _ hC hx hs).1⟩

/-! ## A flush that has to wait -/

/-- A call of one byte, up to its handler, which has read it. -/
def shortCall (o : StreamNo) : List Action :=
  [.client (.createRequestStream o), .client (.event (.write o [7])), .client (.event (.flush o)),
    .client (.event .writer), .client (.event (.writerResult .success)), .client (.event (.writerResult .success)),
    .server (.event .reader),
    .server (.receive ⟨.single, o, [7]⟩ o), .server (.event (.read o 1)), .server (.event (.get o))]

/-- Two such calls, the handler of the first one about to flush, and a third call that begins. -/
def opening : List Action :=
  shortCall 0 ++ shortCall 1 ++
    [.server (.event (.write 0 [9])), .client (.createRequestStream 2), .client (.event (.write 2 [0]))]

theorem check_opening : Run.check step Conforming established opening = true := by decide +kernel

def opened : Connection := (Run.exec step established opening).get (by decide +kernel)

/-- All of a packet but one byte. -/
def padding : List UInt8 := List.replicate (maxPacketSize - 1) 0

/-- The client while the third call writes its request. -/
def pushing (pool : Pool Packet) (queue : List (Option Packet)) (ps : PacketStream) (f : Fiber) (writer : Writer) :
    ClientStreamProcessor :=
  { opened.client with core := { opened.client.core with
    packetsPool := pool
    writerQueue := queue
    streams := Function.update opened.client.core.streams 2 ps
    fibers := Function.update opened.client.core.fibers 2 f
    writer := writer } }

/-- The third call has one byte in its packet. -/
def held (t : PacketType) : ClientStreamProcessor :=
  pushing ⟨maxPacketsCnt, 3, []⟩ [] ⟨[], none, some ⟨0, t, 2, [0], 0⟩, 2⟩ .running .getting

/-- It fills the packet, which the writer sends, and begins the next one. -/
def push : List Action :=
  [.client (.event (.write 2 (padding ++ [0]))), .client (.event .writer), .client (.event (.writerResult .success)),
    .client (.event (.writerResult .success)), .client (.event (.acquire 2))]

theorem client_opened : opened.client = held .start := by
  have hs : opened.client.core.streams 2 = ⟨[], none, some ⟨0, .start, 2, [0], 0⟩, 2⟩ := by decide +kernel
  have hf : opened.client.core.fibers 2 = .running := by decide +kernel
  have hpool : opened.client.core.packetsPool = ⟨maxPacketsCnt, 3, []⟩ := rfl
  have hq : opened.client.core.writerQueue = [] := rfl
  have hw : opened.client.core.writer = .getting := rfl
  rw [held, pushing, ← hs, ← hf, Function.update_eq_self, Function.update_eq_self, ← hpool, ← hq, ← hw]

theorem writeData_padding (t : PacketType) :
    (⟨0, t, 2, [0], 0⟩ : Packet).writeData (padding ++ [0]) = (⟨0, t, 2, 0 :: padding, 0⟩, [0]) := by
  have hlen : padding.length = maxPacketSize - 1 := List.length_replicate
  simp [Packet.writeData, List.take_left' hlen, List.drop_left' hlen]

/-- A step of the client that leaves its streams' slots alone. -/
theorem step_client_of {x : Connection} {a : ClientStreamProcessor.Action} {c : ClientStreamProcessor}
    (hc : x.client.step a = some c) (hr : ClientStreamProcessor.remains a x.toClient = some x.toClient)
    (hactive : c.core.active = x.client.core.active) : x.step (.client a) = some { x with
      client := c
      toServer := x.toServer ++ x.client.sent a
      calls := noteAll x.calls x.callCnt (x.client.deedOn a) } := by
  have hcount : count x.callCnt x.client.core c.core = x.callCnt := by
    funext r
    exact count_of_active (congrFun hactive r)
  simp only [step, clientStep, hr, hc, Option.bind_some, Option.map_some, hcount]

theorem noteAll_nothing (logs : RequestId → Nat → Log) (cnt : RequestId → Nat) :
    noteAll logs cnt (fun _ => .nothing) = logs := by
  funext r
  exact note_nothing _ _

theorem step_client_quiet {x : Connection} {a : ClientStreamProcessor.Action} {c : ClientStreamProcessor}
    (hc : x.client.step a = some c) (hr : ClientStreamProcessor.remains a x.toClient = some x.toClient)
    (hactive : c.core.active = x.client.core.active) (hd : x.client.deedOn a = fun _ => .nothing) :
    x.step (.client a) = some { x with client := c, toServer := x.toServer ++ x.client.sent a } := by
  rw [step_client_of hc hr hactive, hd, noteAll_nothing]

theorem noteAll_update (logs : RequestId → Nat → Log) (cnt : RequestId → Nat) (q : RequestId) (l : Nat → Log)
    {deeds : RequestId → Deed} (hd : ∀ r, r ≠ q → deeds r = .nothing) :
    noteAll (Function.update logs q l) cnt deeds = Function.update logs q (note l (cnt q - 1) (deeds q)) := by
  funext r
  by_cases hr : r = q
  · subst hr
    simp [noteAll]
  · rw [Function.update_of_ne hr, noteAll, Function.update_of_ne hr, hd r hr, note_nothing]

theorem active_opened : opened.client.core.active 2 = some 2 ∧ opened.client.core.requestIds 2 = 2 := by decide +kernel

theorem step_held {t : PacketType} (ht : t.isLast = false) :
    (held t).step (.event (.write 2 (padding ++ [0]))) = some (pushing ⟨maxPacketsCnt, 3, []⟩
      [some ⟨0, t, 2, 0 :: padding, 0⟩] ⟨[], none, none, 2⟩ (.acquiring .middle [0]) .getting) := by
  simp [held, pushing, ClientStreamProcessor.step, StreamProcessor.event, StreamProcessor.write, StreamProcessor.owned,
    active_opened, ht, StreamProcessor.fillWritePacket, writeData_padding, StreamProcessor.setStream,
    StreamProcessor.setFiber, StreamProcessor.putPacket]

theorem step_acquiring : (pushing ⟨maxPacketsCnt, 3, [Packet.create 0]⟩ [] ⟨[], none, none, 2⟩ (.acquiring .middle [0])
    .getting).step (.event (.acquire 2)) = some (held .middle) := by
  simp [held, pushing, ClientStreamProcessor.step, StreamProcessor.event, StreamProcessor.acquire,
    StreamProcessor.owned, active_opened, Pool.exhausted, StreamProcessor.acquireWritePacket,
    StreamProcessor.acquirePacket, Pool.acquire, Packet.create, StreamProcessor.fillWritePacket, Packet.writeData,
    maxPacketSize, StreamProcessor.setStream, StreamProcessor.setFiber]

/-- **Every push leaves the client as it was**, with one more packet on its way. -/
theorem exec_push {x : Connection} {t : PacketType} (hx : x.client = held t) (ht : t.isLast = false)
    (hnone : x.toServer = []) : Run.exec step x push = some { x with
      client := held .middle
      toServer := [⟨t, 2, 0 :: padding⟩]
      calls := Function.update x.calls 2 (note (x.calls 2) (x.callCnt 2 - 1) (.wrote (padding ++ [0]))) } := by
  obtain ⟨client, server, toServer, toClient, calls, callCnt, handlers, handlerCnt⟩ := x
  dsimp only at hx hnone
  subst hx hnone
  have hid : (held t).core.requestIds 2 = 2 := active_opened.2
  have hdeeds : ∀ r, r ≠ 2 → (held t).deedOn (.event (.write 2 (padding ++ [0]))) r = .nothing :=
    fun r hr => if_neg fun h => hr (h.symm.trans hid)
  have hdeed : (held t).deedOn (.event (.write 2 (padding ++ [0]))) 2 = .wrote (padding ++ [0]) :=
    if_pos (e := Deed.nothing) hid
  have hcalls := noteAll_update calls callCnt 2 (calls 2) hdeeds
  rw [Function.update_eq_self, hdeed] at hcalls
  have hquiet : ∀ {c : ClientStreamProcessor} {e : StreamProcessor.Event}, e.owner = none →
      c.deedOn (.event e) = fun _ => .nothing := fun he => funext fun r => StreamProcessor.deedOn_of_none he r
  have hacquire : ∀ c : ClientStreamProcessor, c.deedOn (.event (.acquire 2)) = fun _ => .nothing := fun c => by
    funext r
    show (if c.core.requestIds 2 = r then Deed.nothing else .nothing) = .nothing
    split <;> rfl
  refine Run.exec_cons.2 ⟨_, step_client_of (step_held ht) rfl rfl, ?_⟩
  refine Run.exec_cons.2 ⟨_, step_client_quiet rfl rfl rfl (hquiet rfl), ?_⟩
  refine Run.exec_cons.2 ⟨_, step_client_quiet rfl rfl rfl (hquiet rfl), ?_⟩
  refine Run.exec_cons.2 ⟨_, step_client_quiet rfl rfl rfl (hquiet rfl), ?_⟩
  refine Run.exec_cons.2 ⟨_, step_client_quiet step_acquiring rfl rfl (hacquire _), ?_⟩
  dsimp only
  rw [hcalls]
  rfl

/-- The packets of the third call that its handler has not read, when there are `n` of them. -/
def unread (n : Nat) : List Packet :=
  (List.range n).map fun i => (Packet.create (3 + i)).ofFrame ⟨if i = 0 then .start else .middle, 2, 0 :: padding⟩

/-- The server with them in the reader queue of the third handler's stream. -/
def serving (n : Nat) : StreamProcessor :=
  { opened.server.enter 2 2 with
    packetsPool := ⟨maxPacketsCnt, 3 + n, []⟩
    streams := Function.update (opened.server.enter 2 2).streams 2 ⟨unread n, none, none, 2⟩ }

/-- The connection then. -/
def flooded (n : Nat) : Connection :=
  { opened with
    client := held .middle
    server := serving n
    calls := Function.update opened.calls 2 ((fun l => note l 0 (.wrote (padding ++ [0])))^[n] (opened.calls 2))
    handlers := Function.update opened.handlers 2
      ((fun l => note l 0 (.arrived (0 :: padding)))^[n] (opened.handlers 2))
    handlerCnt := Function.update opened.handlerCnt 2 1 }

/-- One more packet of the third call. -/
def pass (t : PacketType) : List Action :=
  push ++ [.server (.event .reader), .server (.receive ⟨t, 2, 0 :: padding⟩ 2)]

def flood : Nat → List Action
  | 0 => pass .start
  | n + 1 => flood n ++ pass .middle

/-- The server with a new packet in its reader's hand. -/
def reading (s : StreamProcessor) (k : Nat) : StreamProcessor :=
  { s with packetsPool := ⟨maxPacketsCnt, k + 1, []⟩, reader := .reading (Packet.create k) }

theorem step_reader {s : StreamProcessor} {k : Nat} (hr : s.reader = .acquiring)
    (hp : s.packetsPool = ⟨maxPacketsCnt, k, []⟩) (hk : k < maxPacketsCnt) :
    ServerStreamProcessor.step s (.event .reader) = some (reading s k) := by
  simp [ServerStreamProcessor.step, StreamProcessor.event, StreamProcessor.readerStep, hr,
    StreamProcessor.acquirePacket, hp, Pool.acquire, hk, reading]

theorem step_server_of {x : Connection} {a : ServerStreamProcessor.Action} {s : StreamProcessor} {fs : List Frame}
    (hs : ServerStreamProcessor.step x.server a = some s) (hr : ServerStreamProcessor.remains a x.toServer = some fs) :
    x.step (.server a) = some { x with
      server := s
      toServer := fs
      toClient := x.toClient ++ ServerStreamProcessor.sent x.server a
      handlers := noteAll x.handlers (count x.handlerCnt x.server s) (ServerStreamProcessor.deedOn x.server a)
      handlerCnt := count x.handlerCnt x.server s } := by
  simp only [step, serverStep, hr, hs, Option.bind_some, Option.map_some]

/-- **The server's reader takes a packet and gets what is on its way.** -/
theorem exec_receive {x : Connection} {f : Frame} {o : StreamNo} {k : Nat} {s : StreamProcessor}
    (hr : x.server.reader = .acquiring) (hp : x.server.packetsPool = ⟨maxPacketsCnt, k, []⟩) (hk : k < maxPacketsCnt)
    (hf : x.toServer = [f]) (hfirst : f.type.isFirst ≠ (x.server.active f.requestId).isSome)
    (hs : ServerStreamProcessor.step (reading x.server k) (.receive f o) = some s) :
    Run.exec step x [.server (.event .reader), .server (.receive f o)] = some { x with
      server := s
      toServer := []
      handlers := Function.update x.handlers f.requestId (note (x.handlers f.requestId)
        (count x.handlerCnt x.server s f.requestId - 1) (.arrived f.body))
      handlerCnt := count x.handlerCnt x.server s } := by
  have hcount : count x.handlerCnt x.server (reading x.server k) = x.handlerCnt := funext fun r => count_of_active rfl
  have hquiet : ServerStreamProcessor.deedOn x.server (.event .reader) = fun _ => .nothing :=
    funext fun r => StreamProcessor.deedOn_of_none (s := x.server) (e := .reader) rfl r
  have hreader : x.step (.server (.event .reader)) = some { x with server := reading x.server k } := by
    rw [step_server_of (step_reader hr hp hk) rfl, hcount, hquiet, noteAll_nothing]
    simp [ServerStreamProcessor.sent, StreamProcessor.sends]
  have hdeeds : ∀ r, r ≠ f.requestId → ServerStreamProcessor.deedOn (reading x.server k) (.receive f o) r = .nothing :=
    fun r hr => if_neg fun h => hr h.1.symm
  have hdeed : ServerStreamProcessor.deedOn (reading x.server k) (.receive f o) f.requestId = .arrived f.body :=
    if_pos ⟨rfl, hfirst⟩
  have hlogs := noteAll_update x.handlers (count x.handlerCnt (reading x.server k) s) f.requestId
    (x.handlers f.requestId) hdeeds
  rw [Function.update_eq_self, hdeed] at hlogs
  have hremains : ServerStreamProcessor.remains (.receive f o) x.toServer = some [] := by
    rw [hf]
    exact if_pos rfl
  rw [Run.exec_cons_of _ hreader]
  refine Run.exec_cons.2 ⟨_, step_server_of hs hremains, ?_⟩
  dsimp only
  rw [hlogs]
  simp only [ServerStreamProcessor.sent, List.append_nil]
  rfl

theorem length_padding_lt : padding.length < maxPacketSize := by decide +kernel

theorem unread_succ (n : Nat) : unread (n + 1) =
    unread n ++ [(Packet.create (3 + n)).ofFrame ⟨if n = 0 then .start else .middle, 2, 0 :: padding⟩] := by
  rw [unread, List.range_succ, List.map_append, List.map_singleton, ← unread]

theorem server_opened : opened.server.reader = .acquiring ∧ opened.server.packetsPool = ⟨maxPacketsCnt, 3, []⟩ ∧
    opened.server.active 2 = none :=
  ⟨by decide +kernel, rfl, by decide +kernel⟩

/-- The third call's first packet starts its handler. -/
theorem step_receive_start :
    ServerStreamProcessor.step (reading opened.server 3) (.receive ⟨.start, 2, 0 :: padding⟩ 2) = some (serving 1) := by
  obtain ⟨hr, -, hslot⟩ := server_opened
  have howned : opened.server.active (opened.server.requestIds 2) ≠ some 2 := by decide +kernel
  have hstream : opened.server.streams 2 = PacketStream.create := by decide +kernel
  simp [ServerStreamProcessor.step, ServerStreamProcessor.receive, reading, PacketType.isFirst, hslot,
    StreamProcessor.owned, howned, length_padding_lt, StreamProcessor.deliver, StreamProcessor.pushPacket,
    StreamProcessor.setStream, StreamProcessor.enter, serving, unread, hstream, PacketStream.initialise,
    PacketStream.create, PacketStream.pushPacket, hr]

theorem step_receive_middle {n : Nat} (hn : n ≠ 0) :
    ServerStreamProcessor.step (reading (serving n) (3 + n)) (.receive ⟨.middle, 2, 0 :: padding⟩ 2) =
      some (serving (n + 1)) := by
  simp [ServerStreamProcessor.step, ServerStreamProcessor.receive, reading, PacketType.isFirst, length_padding_lt,
    StreamProcessor.deliver, StreamProcessor.pushPacket, StreamProcessor.setStream, StreamProcessor.enter, serving,
    unread_succ, hn, PacketStream.pushPacket, server_opened, Nat.add_assoc]

theorem exec_pass_start : Run.exec step opened (pass .start) = some (flooded 1) := by
  obtain ⟨hr, hp, hslot⟩ := server_opened
  have hcnt : count opened.handlerCnt opened.server (serving 1) = (flooded 1).handlerCnt := by
    funext r
    by_cases hr : r = 2
    · subst hr
      decide +kernel
    · have hactive : (serving 1).active r = opened.server.active r := Function.update_of_ne hr _ _
      rw [count_of_active hactive]
      exact (Function.update_of_ne hr _ _).symm
  rw [pass, Run.exec_append_of _ _ (exec_push client_opened rfl rfl)]
  refine Eq.trans (exec_receive (k := 3) hr hp (by decide) rfl ?_ step_receive_start) ?_
  · simp [hslot, PacketType.isFirst]
  · dsimp only
    rw [hcnt]
    rfl

theorem exec_pass_middle {n : Nat} (hn : n ≠ 0) (hlt : 3 + n < maxPacketsCnt) :
    Run.exec step (flooded n) (pass .middle) = some (flooded (n + 1)) := by
  have hcnt : count (flooded n).handlerCnt (flooded n).server (serving (n + 1)) = (flooded n).handlerCnt :=
    funext fun r => count_of_active rfl
  rw [pass, Run.exec_append_of _ _ (exec_push (x := flooded n) rfl rfl rfl)]
  refine Eq.trans (exec_receive (k := 3 + n) server_opened.1 rfl hlt rfl ?_ (step_receive_middle hn)) ?_
  · simp [flooded, serving, StreamProcessor.enter, PacketType.isFirst]
  · dsimp only
    rw [hcnt]
    simp only [flooded, Function.update_self, Function.update_idem, Function.iterate_succ_apply']
    rfl

/-- **The third handler reads nothing**, so its packets pile up. -/
theorem exec_flood : ∀ {n : Nat}, 3 + n < maxPacketsCnt → Run.exec step opened (flood n) = some (flooded (n + 1))
  | 0, _ => exec_pass_start
  | n + 1, hn => by
    rw [flood, Run.exec_append_of _ _ (exec_flood (by omega))]
    exact exec_pass_middle (Nat.succ_ne_zero n) hn

theorem meets_flood : ∀ (n : Nat) {x : Connection}, Run.Meets step Conforming x (flood n) := by
  have hpass : ∀ {t : PacketType} {x : Connection}, ∀ a ∈ pass t, x.Conforming a := fun a ha => by
    simp only [pass, push, List.cons_append, List.nil_append, List.mem_cons, List.not_mem_nil, or_false] at ha
    rcases ha with rfl | rfl | rfl | rfl | rfl | rfl | rfl <;> trivial
  have hflood : ∀ n, ∀ a ∈ flood n, ∀ x : Connection, x.Conforming a := fun n => by
    induction n with
    | zero => exact fun a ha x => hpass a ha
    | succ n ih =>
      intro a ha x
      rcases List.mem_append.1 ha with ha | ha
      · exact ih a ha x
      · exact hpass a ha
  exact fun n x => Run.meets_of_forall (hflood n)

/-- No packet is free when the second handler begins its response and the first one flushes its own; the first one's
packet is sent, released, and taken by the second one, so the first one still waits when the client has ended that call
and sends the next one under its id. -/
def reuse : List Action :=
  [.server (.event .reader), .server (.event (.write 1 [9])), .server (.event (.flush 0)), .server (.event .writer),
    .server (.event (.writerResult .success)), .server (.event (.acquire 1)), .client (.event .reader),
    .client (.receive ⟨.single, 0, [9]⟩), .client (.event (.read 0 1)), .client (.event (.get 0)),
    .client (.deleteRequestStream 0), .client (.createRequestStream 0), .client (.event (.write 0 [7])),
    .client (.event (.flush 0)), .client (.event .writer), .client (.event (.writerResult .success))]

set_option maxRecDepth 100000 in
theorem check_reuse :
    Run.check step Conforming (flooded 508) (reuse ++ [.server (.receive ⟨.single, 0, [7]⟩ 0)]) = true := by
  decide +kernel

set_option maxRecDepth 100000 in
theorem exec_reuse : (Run.exec step (flooded 508) reuse).any (fun x => decide (x.server.active 0 = some 0) &&
    (x.step (.server (.receive ⟨.single, 0, [7]⟩ 0))).isSome) = true := by
  decide +kernel

set_option maxRecDepth 100000 in
/-- **A flush that has to wait keeps the request stream**: the client's next call under the same id is refused. -/
theorem not_forall_not_protocolError : ¬ ∀ (as : List Action) (a : Action) (x x' : Connection),
    Run.Meets step Conforming established (as ++ [a]) → Run.exec step established as = some x → x.step a = some x' →
      ¬ x.ProtocolError a := by
  intro h
  have hopen : Run.exec step established opening = some opened := (Option.some_get _).symm
  have hflood := exec_flood (n := 507) (by decide)
  have hrun : Run.exec step established (opening ++ flood 507) = some (flooded 508) := by
    rw [Run.exec_append_of _ _ hopen, hflood]
  have hmeets : Run.Meets step Conforming established
      (opening ++ flood 507 ++ (reuse ++ [.server (.receive ⟨.single, 0, [7]⟩ 0)])) :=
    Run.meets_append_of _ hrun (Run.meets_append_of _ hopen (Run.meets_of_check _ check_opening) (meets_flood 507))
      (Run.meets_of_check _ check_reuse)
  obtain ⟨x, hx, hlast⟩ := (Option.any_eq_true _ _).1 exec_reuse
  obtain ⟨hactive, hstep⟩ := Bool.and_eq_true_iff.1 hlast
  obtain ⟨x', hx'⟩ := Option.isSome_iff_exists.1 hstep
  rw [← List.append_assoc] at hmeets
  refine h _ _ x x' hmeets ((Run.exec_append_of _ _ hrun).trans hx) hx' ?_
  show true = (x.server.active 0).isSome
  rw [of_decide_eq_true hactive]
  rfl

end Connection
end Mrpc
