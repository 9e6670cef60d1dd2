import MultiplexingRpc.CrossTalk
/-!
# Unflushed — a message that was not flushed is not whole

`mrpc_packet_stream_write` hands a full packet to the writer only when more bytes are to follow, so the last bytes of a
message stay behind until `mrpc_packet_stream_flush`.  Whoever has read as much as was written has read a message that
was flushed, whatever became of the connection since.
-/
namespace Mrpc

namespace Log

variable {l : Log} {b b' : List UInt8}

/-- `b` is not all that was written, unless that was flushed or is nothing. -/
def Owes (l : Log) (b : List UInt8) : Prop := l.flushed = false → l.wrote ≠ [] → b ≠ l.wrote

theorem owes_empty (b : List UInt8) : Log.empty.Owes b := fun _ hne => absurd rfl hne

theorem owes_of_rest {rest : List UInt8} (h : b ++ rest = l.wrote) (hrest : rest ≠ []) : l.Owes b := by
  intro _ _ hb
  rw [hb] at h
  exact hrest (List.append_right_eq_self.1 h)

/-- **A part of less than all is less than all.** -/
theorem Owes.of_prefix (h : l.Owes b') (hb : b <+: b') (hb' : b' <+: l.wrote) : l.Owes b := by
  intro hf hne heq
  rw [heq] at hb
  exact h hf hne (hb'.eq_of_length_le hb.length_le)

theorem Owes.note (h : l.Owes b) (hb : b <+: l.wrote) (d : Deed) : (l.note d).Owes b := by
  intro hf hne heq
  have hflushed : l.flushed = false := by
    cases d with
    | flushed => cases hf
    | _ => exact hf
  rw [wrote_note] at hne heq
  by_cases hnil : l.wrote = []
  · rw [hnil] at hb
    rw [List.prefix_nil.1 hb] at heq
    exact hne heq.symm
  · apply h hflushed hnil
    rw [heq] at hb ⊢
    have hd : d.bytes = [] := by
      have hlen := hb.length_le
      rw [List.length_append] at hlen
      exact List.eq_nil_of_length_eq_zero (by omega)
    rw [hd, List.append_nil]

end Log

theorem owes_note {logs : Nat → Log} {n : Nat} {b : List UInt8} (h : (logs n).Owes b) (hb : b <+: (logs n).wrote)
    (i : Nat) (d : Deed) : (note logs i d n).Owes b := by
  by_cases hn : n = i
  · subst hn
    rw [note_self]
    exact h.note hb d
  · rw [note_of_ne hn]
    exact h

theorem owes_note_arrived {logs : Nat → Log} {n : Nat} {b : List UInt8} (h : (logs n).Owes b) (i : Nat)
    (bytes : List UInt8) : (note logs i (.arrived bytes) n).Owes b := by
  by_cases hn : n = i
  · subst hn
    rw [note_self]
    exact h
  · rw [note_of_ne hn]
    exact h

theorem bodies_snoc (fs : List Frame) (f : Frame) : bodies (fs ++ [f]) = bodies fs ++ f.body := by simp

/-- An end whose message is under way keeps the last of it back. -/
def End.Holds (e : End) : Prop := e.active = true → e.stage = .sent → e.pending ≠ []

namespace Lane

variable {k k' : Lane} {T M : List Frame} {d : Deed} {e : End} {f : Frame} {w : Bool}

/-! ## The packets of requests -/

/-- The packets of requests on their way. -/
def asking (k : Lane) : List Frame := k.toServer ++ k.client.outbound

/-- Those for the handler there is. -/
def late (fs : List Frame) : List Frame := fs.takeWhile fun f => !f.type.isFirst

/-- Those for the handler to be started. -/
def early (fs : List Frame) : List Frame := fs.dropWhile fun f => !f.type.isFirst

theorem late_append (hT : ∀ f ∈ T, f.type.isFirst = false) (hM : ∀ f rest, M = f :: rest → f.type.isFirst = true) :
    late (T ++ M) = T ∧ early (T ++ M) = M := by
  have hall : ∀ f ∈ T, (!f.type.isFirst) = true := fun f hf => by rw [hT f hf]; rfl
  unfold late early
  rw [List.takeWhile_append_of_pos hall, List.dropWhile_append_of_pos hall]
  cases M with
  | nil => exact ⟨List.append_nil T, rfl⟩
  | cons f M =>
    have hf := hM f M rfl
    constructor
    · rw [List.takeWhile_cons_of_neg (by simp [hf]), List.append_nil]
    · rw [List.dropWhile_cons_of_neg (by simp [hf])]

theorem Request.parts (h : Request k T M) : late k.asking = T ∧ early k.asking = M := by
  unfold asking
  rw [h.line]
  exact late_append h.later fun f rest hM => (h.first f rest hM).1

/-! ## What is owed -/

/-- What arrived of a message, with what is on its way, is not all of it unless it was flushed. -/
structure Owing (k : Lane) : Prop where
  requests : ∀ n, (k.calls n).Owes (k.handlers n).arrived
  responses : ∀ n, (k.handlers n).Owes (k.calls n).arrived
  current : k.server.listening = true → 0 < k.handlerCnt →
    (k.calls (k.handlerCnt - 1)).Owes ((k.handlers (k.handlerCnt - 1)).arrived ++ bodies (late k.asking))
  next : k.server.listening = true → (k.calls k.handlerCnt).Owes (bodies (early k.asking))
  response : k.client.listening = true → k.client.active = true → k.handlerCnt = k.callCnt →
    (k.handlers (k.callCnt - 1)).Owes
      ((k.calls (k.callCnt - 1)).arrived ++ bodies (k.toClient ++ k.server.outbound))

namespace Owing

/-! ## Steps of the client -/

/-- The line got shorter at its end, or stayed. -/
theorem shorter (h : k.Owing) (hk : k.Inv) {fs : List Frame} (hfs : fs <+: k.asking) (d : Deed)
    (hl : k.server.listening = true) :
    (0 < k.handlerCnt → (note k.calls (k.callCnt - 1) d (k.handlerCnt - 1)).Owes
      ((k.handlers (k.handlerCnt - 1)).arrived ++ bodies (late fs))) ∧
    (note k.calls (k.callCnt - 1) d k.handlerCnt).Owes (bodies (early fs)) := by
  obtain ⟨T, M, hreq⟩ := hk.request hl
  obtain ⟨hlate, hearly⟩ := hreq.parts
  obtain ⟨T', M', rfl, hT, hM⟩ := hreq.exists_split hfs
  obtain ⟨hlate', hearly'⟩ := late_append (fun f hf => hreq.later f (hT.subset hf))
    (fun f rest hf => (hreq.first_of_initial hM f rest hf).1)
  rw [hlate', hearly']
  constructor
  · intro hpos
    have hcur := h.current hl hpos
    have hflow := (hreq.current hpos).le
    rw [hlate] at hcur
    have hle := (List.prefix_append_right_inj (k.handlers (k.handlerCnt - 1)).arrived).2 (bodies_mono hT)
    exact owes_note (hcur.of_prefix hle hflow) (hle.trans hflow) _ d
  · have hnext := h.next hl
    have hflow := hreq.next.le
    rw [hearly] at hnext
    exact owes_note (hnext.of_prefix (bodies_mono hM) hflow) ((bodies_mono hM).trans hflow) _ d

/-- The line got longer by a packet of the current call, which keeps something back or has flushed. -/
theorem longer (h : k.Owing) (hk : k.Inv) (ha : k.client.active = true) (hw : k.client.writing = true)
    (hfirst : f.type.isFirst = true ↔ k.client.stage = .unsent) {pending : List UInt8}
    (hbytes : f.body ++ pending = k.client.pending ++ d.bytes)
    (hrest : ∀ b, b ++ pending = (k.calls (k.callCnt - 1)).wrote ++ d.bytes → ((k.calls (k.callCnt - 1)).note d).Owes b)
    (hl : k.server.listening = true) :
    (0 < k.handlerCnt → (note k.calls (k.callCnt - 1) d (k.handlerCnt - 1)).Owes
      ((k.handlers (k.handlerCnt - 1)).arrived ++ bodies (late (k.asking ++ [f])))) ∧
    (note k.calls (k.callCnt - 1) d k.handlerCnt).Owes (bodies (early (k.asking ++ [f]))) := by
  obtain ⟨T, M, hreq⟩ := hk.request hl
  obtain ⟨hlate, hearly⟩ := hreq.parts
  have hpos := hk.calls.pos ha
  have hcnt := hk.cnt
  have hstage := hreq.stage ha hw
  have hline : k.asking = T ++ M := hreq.line
  rcases Nat.eq_or_lt_of_le hcnt.1 with heq | hlt
  · -- it is for the handler there is
    have hM := hreq.started heq
    have hnf : f.type.isFirst = false := by
      rw [← Bool.not_eq_true, hfirst, hstage]
      exact fun hs => absurd hs.1 (by omega)
    have hparts := late_append (T := T ++ [f]) (M := []) (fun g hg => by
      rcases List.mem_append.1 hg with hg | hg
      · exact hreq.later g hg
      · rw [List.mem_singleton.1 hg]
        exact hnf) (fun _ _ hg => by cases hg)
    rw [List.append_nil] at hparts
    rw [hline, hM, List.append_nil, hparts.1, hparts.2]
    constructor
    · intro hpos'
      have hflow := (hreq.current hpos').eq ⟨heq, ha, hw⟩
      rw [heq] at hflow ⊢
      rw [note_self]
      apply hrest
      rw [← hflow, bodies_snoc, List.append_assoc, List.append_assoc, hbytes]
      simp only [List.append_assoc]
    · rw [heq, note_of_ne (by omega), hk.calls.empty _ (Nat.le_refl _)]
      exact Log.owes_empty _
  · -- it is for the handler to be started
    have hcall : k.callCnt - 1 = k.handlerCnt := by omega
    have hparts := late_append (T := T) (M := M ++ [f]) hreq.later (fun g rest hg => by
      cases M with
      | nil =>
        cases hg
        exact hfirst.2 (hstage.2 ⟨hlt, rfl⟩)
      | cons g' M =>
        cases hg
        exact (hreq.first _ _ rfl).1)
    rw [hline, List.append_assoc, hparts.1, hparts.2]
    constructor
    · intro hpos'
      have hcur := h.current hl hpos'
      rw [hlate] at hcur
      exact owes_note hcur (hreq.current hpos').le _ d
    · have hflow := hreq.next.eq ⟨hlt, ha, hw⟩
      rw [hcall] at hrest ⊢
      rw [note_self]
      apply hrest
      rw [← hflow, bodies_snoc, List.append_assoc, hbytes, List.nil_append, List.append_assoc]

/-- **The client's end moves.** -/
theorem client (h : k.Owing) (hk : k.Inv) (hm : k.client.Move d e) (he : e.Holds) :
    Owing { k with client := e, calls := note k.calls (k.callCnt - 1) d, working := w } := by
  have hshort : ∀ {fs}, fs <+: k.asking → k.server.listening = true → _ := fun hfs => h.shorter hk hfs d
  have hline : k.server.listening = true →
      (0 < k.handlerCnt → (note k.calls (k.callCnt - 1) d (k.handlerCnt - 1)).Owes
        ((k.handlers (k.handlerCnt - 1)).arrived ++ bodies (late (k.toServer ++ e.outbound)))) ∧
      (note k.calls (k.callCnt - 1) d k.handlerCnt).Owes (bodies (early (k.toServer ++ e.outbound))) := by
    intro hl
    cases hm with
    | stay | deaf | write | returned | failed => exact hshort List.prefix_rfl hl
    | mute =>
      refine hshort ?_ hl
      rw [List.append_nil]
      exact List.prefix_append _ _
    | @put _ bytes pending f hd ha hs hbytes hfirst hbody =>
      dsimp only [End.emit]
      split
      · rename_i hw
        rw [← List.append_assoc]
        rw [← Deed.bytes_of hd] at hbytes
        refine h.longer hk ha hw hfirst hbytes (fun b hb => ?_) hl
        rw [← Log.wrote_note] at hb
        exact Log.owes_of_rest hb (he ha rfl)
      · exact hshort List.prefix_rfl hl
    | @flush f ha hs hbytes hfirst hbody =>
      dsimp only [End.emit]
      split
      · rename_i hw
        rw [← List.append_assoc]
        have hbytes : f.body ++ [] = k.client.pending ++ Deed.flushed.bytes := by simpa [Deed.bytes] using hbytes
        refine h.longer hk ha hw hfirst hbytes (fun b _ hf => ?_) hl
        cases hf
      · exact hshort List.prefix_rfl hl
  constructor
  · exact note_forall (P := fun n l => l.Owes (k.handlers n).arrived) h.requests
      ((h.requests _).note (hk.requests _) d)
  · intro n
    rw [arrived_note_of hm.arriving]
    exact h.responses n
  · exact fun hl => (hline hl).1
  · exact fun hl => (hline hl).2
  · intro hl ha heq
    dsimp only at hl ha heq ⊢
    rw [arrived_note_of hm.arriving]
    exact h.response (hm.listening hl) (hm.active ▸ ha) heq

theorem callBegin (h : k.Owing) (hk : k.Inv) :
    Owing { k with client := k.client.begin_ [], callCnt := k.callCnt + 1 } := by
  constructor
  · exact h.requests
  · exact h.responses
  · exact h.current
  · exact h.next
  · intro _ _ heq
    have heq : k.handlerCnt = k.callCnt + 1 := heq
    have hle := hk.cnt.1
    omega

theorem callFinish (h : k.Owing) : Owing { k with client := k.client.finish } := by
  constructor
  · exact h.requests
  · exact h.responses
  · exact h.current
  · exact h.next
  · exact fun _ ha => by cases ha

theorem clientReceive (h : k.Owing) (hk : k.Inv) {rest : List Frame} (hs : k.toClient = f :: rest)
    (hl : k.client.listening = true) (ha : k.client.active = true) :
    Owing { k with
      client := { k.client with inbound := k.client.inbound ++ f.body }
      toClient := rest
      calls := note k.calls (k.callCnt - 1) (.arrived f.body) } := by
  have hresponse := hk.response hl
  have heq : k.handlerCnt = k.callCnt := by
    by_contra hne
    have hnil := (hresponse.quiet (Or.inl ⟨ha, Nat.lt_of_le_of_ne hk.cnt.1 hne⟩)).1
    rw [hs] at hnil
    cases hnil
  have howes := h.response hl ha heq
  rw [hs, List.cons_append, bodies_cons, ← List.append_assoc] at howes
  have hflow := (hresponse.current ha heq).le
  rw [hs, List.cons_append, bodies_cons, ← List.append_assoc] at hflow
  constructor
  · exact fun n => owes_note_arrived (h.requests n) _ _
  · intro n
    refine note_forall (P := fun n l => (k.handlers n).Owes l.arrived) h.responses ?_ n
    rw [Log.arrived_note]
    exact howes.of_prefix (List.prefix_append _ _) hflow
  · exact fun hl hpos => owes_note_arrived (h.current hl hpos) _ _
  · exact fun hl => owes_note_arrived (h.next hl) _ _
  · intro _ _ _
    dsimp only
    rw [note_self, Log.arrived_note]
    exact howes

/-! ## Steps of the server -/

/-- **The server's end moves.** -/
theorem server (h : k.Owing) (hk : k.Inv) (hm : k.server.Move d e) (he : e.Holds) :
    Owing { k with server := e, handlers := note k.handlers (k.handlerCnt - 1) d } := by
  constructor
  · intro n
    rw [arrived_note_of hm.arriving]
    exact h.requests n
  · exact note_forall (P := fun n l => l.Owes (k.calls n).arrived) h.responses
      ((h.responses _).note (hk.responses _) d)
  · intro hl hpos
    dsimp only at hl hpos ⊢
    rw [arrived_note_of hm.arriving]
    exact h.current (hm.listening hl) hpos
  · exact fun hl => h.next (hm.listening hl)
  · intro hl ha heq
    have hresponse := hk.response hl
    have hflow := hresponse.current ha heq
    have howes := h.response hl ha heq
    have hshort : ∀ {fs}, fs <+: k.toClient ++ k.server.outbound →
        (note k.handlers (k.handlerCnt - 1) d (k.callCnt - 1)).Owes ((k.calls (k.callCnt - 1)).arrived ++ bodies fs) :=
      fun hfs => by
        have hle := (List.prefix_append_right_inj (k.calls (k.callCnt - 1)).arrived).2 (bodies_mono hfs)
        exact owes_note (howes.of_prefix hle hflow.le) (hle.trans hflow.le) _ d
    show (note k.handlers (k.handlerCnt - 1) d (k.callCnt - 1)).Owes
      ((k.calls (k.callCnt - 1)).arrived ++ bodies (k.toClient ++ e.outbound))
    have heq : k.handlerCnt = k.callCnt := heq
    cases hm with
    | stay | deaf | write | returned | failed => exact hshort List.prefix_rfl
    | mute =>
      apply hshort
      rw [List.append_nil]
      exact List.prefix_append _ _
    | @put _ bytes pending f hd hact hs hbytes hfirst hbody =>
      dsimp only [End.emit]
      split
      · rename_i hw
        rw [heq, note_self]
        apply Log.owes_of_rest ?_ (he hact rfl)
        rw [Log.wrote_note, Deed.bytes_of hd, ← hflow.eq ⟨hact, hw⟩, ← List.append_assoc, bodies_snoc,
          List.append_assoc, List.append_assoc, hbytes]
        simp only [List.append_assoc]
      · exact hshort List.prefix_rfl
    | @flush f hact hs hbytes hfirst hbody =>
      dsimp only [End.emit]
      split
      · rw [heq, note_self]
        exact fun hf => by cases hf
      · exact hshort List.prefix_rfl

theorem serverSend (h : k.Owing) {rest : List Frame} (hout : k.server.outbound = f :: rest) :
    Owing { k with server := { k.server with outbound := rest }, toClient := k.toClient ++ [f] } := by
  constructor
  · exact h.requests
  · exact h.responses
  · exact h.current
  · exact h.next
  · intro hl ha heq
    have howes := h.response hl ha heq
    rw [hout] at howes
    dsimp only
    rw [List.append_assoc]
    exact howes

theorem handlerBegin (h : k.Owing) (hk : k.Inv) {rest : List Frame} (hs : k.toServer = f :: rest)
    (hl : k.server.listening = true) (hf : f.type.isFirst = true) :
    Owing { k with
      server := k.server.begin_ f.body
      toServer := rest
      handlers := note k.handlers k.handlerCnt (.arrived f.body)
      handlerCnt := k.handlerCnt + 1 } := by
  obtain ⟨T, M, hreq⟩ := hk.request hl
  obtain ⟨hT, hM⟩ := hreq.eq_nil_of_first hs hf
  have hlt := hreq.handlerCnt_lt hk.cnt.1 hs hf
  have hle := hk.cnt.2
  obtain ⟨-, hearly⟩ := hreq.parts
  have hnext := h.next hl
  have hflow := hreq.next.le
  rw [hearly, hM, bodies_cons] at hnext
  rw [hM, bodies_cons, List.nil_append] at hflow
  have hempty := hk.handlers.empty k.handlerCnt (Nat.le_refl _)
  have hparts := late_append (T := rest ++ k.client.outbound) (M := []) (hreq.first _ _ hM).2 (fun _ _ hg => by cases hg)
  rw [List.append_nil] at hparts
  have harrived : (note k.handlers k.handlerCnt (.arrived f.body) k.handlerCnt).arrived = f.body := by
    rw [note_self, hempty]
    rfl
  constructor
  · refine note_forall (P := fun n l => (k.calls n).Owes l.arrived) h.requests ?_
    rw [← note_self k.handlers, harrived]
    exact hnext.of_prefix (List.prefix_append _ _) hflow
  · exact fun n => owes_note_arrived (h.responses n) _ _
  · intro _ _
    show (k.calls k.handlerCnt).Owes
      ((note k.handlers k.handlerCnt (.arrived f.body) k.handlerCnt).arrived ++ bodies (late (rest ++ k.client.outbound)))
    rw [harrived, hparts.1]
    exact hnext
  · intro _
    show (k.calls (k.handlerCnt + 1)).Owes (bodies (early (rest ++ k.client.outbound)))
    rw [hk.calls.empty _ (by omega)]
    exact Log.owes_empty _
  · intro _ _ _
    have hcall : k.callCnt - 1 = k.handlerCnt := by omega
    show (note k.handlers k.handlerCnt (.arrived f.body) (k.callCnt - 1)).Owes _
    rw [hcall, note_self, hempty]
    exact fun _ hne => absurd rfl hne

theorem serverReceive (h : k.Owing) (hk : k.Inv) {rest : List Frame} (hs : k.toServer = f :: rest)
    (hl : k.server.listening = true) (hf : f.type.isFirst = false) (ha : k.server.active = true) :
    Owing { k with
      server := { k.server with inbound := k.server.inbound ++ f.body }
      toServer := rest
      handlers := note k.handlers (k.handlerCnt - 1) (.arrived f.body) } := by
  obtain ⟨T, M, hreq⟩ := hk.request hl
  obtain ⟨hlate, hearly⟩ := hreq.parts
  obtain ⟨T', rfl, hline⟩ := hreq.eq_cons_of_later hs hf
  have hpos := hk.handlers.pos ha
  have hcur := h.current hl hpos
  have hflow := (hreq.current hpos).le
  have hnext := h.next hl
  have hparts := late_append (T := T') (M := M) (fun g hg => hreq.later g (List.mem_cons_of_mem _ hg))
    (fun g rest hg => (hreq.first g rest hg).1)
  rw [hlate, bodies_cons, ← List.append_assoc] at hcur
  rw [bodies_cons, ← List.append_assoc] at hflow
  rw [hearly] at hnext
  constructor
  · refine note_forall (P := fun n l => (k.calls n).Owes l.arrived) h.requests ?_
    rw [Log.arrived_note]
    exact hcur.of_prefix (List.prefix_append _ _) hflow
  · exact fun n => owes_note_arrived (h.responses n) _ _
  · intro _ _
    show (k.calls (k.handlerCnt - 1)).Owes ((note k.handlers (k.handlerCnt - 1) (.arrived f.body) (k.handlerCnt - 1)).arrived
      ++ bodies (late (rest ++ k.client.outbound)))
    rw [hline, hparts.1, note_self, Log.arrived_note]
    exact hcur
  · intro _
    show (k.calls k.handlerCnt).Owes (bodies (early (rest ++ k.client.outbound)))
    rw [hline, hparts.2]
    exact hnext
  · exact fun hl ha heq => owes_note_arrived (h.response hl ha heq) _ _

/-! ## Runs -/

/-- **Every step leaves an unflushed message short of what was written.** -/
theorem step (h : k.Owing) (hk : k.Inv) {act : Act} (hs : Step k act k') (hclient : k'.client.Holds)
    (hserver : k'.server.Holds) : k'.Owing := by
  cases hs with
  | client hm => exact h.client hk hm hclient
  | clientSend hout =>
    refine ⟨h.requests, h.responses, fun hl hpos => ?_, fun hl => ?_, h.response⟩
    · have hcur := h.current hl hpos
      unfold asking at hcur ⊢
      dsimp only at hcur ⊢
      rw [hout] at hcur
      rw [List.append_assoc]
      exact hcur
    · have hnext := h.next hl
      unfold asking at hnext ⊢
      dsimp only at hnext ⊢
      rw [hout] at hnext
      rw [List.append_assoc]
      exact hnext
  | callBegin => exact h.callBegin hk
  | callFinish => exact h.callFinish
  | clientReceive hs hl ha => exact h.clientReceive hk hs hl ha
  | clientReject => exact ⟨h.requests, h.responses, h.current, h.next, fun hl => by cases hl⟩
  | server hm => exact h.server hk hm hserver
  | serverSend hout => exact h.serverSend hout
  | handlerBegin hs hl hf => exact h.handlerBegin hk hs hl hf
  | serverReceive hs hl hf ha => exact h.serverReceive hk hs hl hf ha
  | serverReject => exact ⟨h.requests, h.responses, fun hl => (by cases hl), fun hl => (by cases hl), h.response⟩
  | handlerFinish => exact ⟨h.requests, h.responses, h.current, h.next, h.response⟩

/-- **Who has read all that was written has read a message that was flushed.** -/
theorem flushed_of_read (h : k.Owing) (hk : k.Inv) (n : Nat) :
    ((k.calls n).received = (k.handlers n).wrote → (k.handlers n).wrote ≠ [] → (k.handlers n).flushed = true) ∧
      ((k.handlers n).received = (k.calls n).wrote → (k.calls n).wrote ≠ [] → (k.calls n).flushed = true) := by
  constructor
  · intro hread hne
    by_contra hflushed
    have hle := (hk.calls.received n).length_le
    rw [hread] at hle
    exact h.responses n (by simpa using hflushed) hne ((hk.responses n).eq_of_length_le hle)
  · intro hread hne
    by_contra hflushed
    have hle := (hk.handlers.received n).length_le
    rw [hread] at hle
    exact h.requests n (by simpa using hflushed) hne ((hk.requests n).eq_of_length_le hle)

end Owing
end Lane

/-! ## Connections -/

/-- **A stream in line holds the last of its message back.** -/
theorem StreamProcessor.Lined.holds {s : StreamProcessor} (h : s.Lined) (hs : s.Sound) (r : RequestId) :
    (s.endOf r).Holds := by
  intro ha hst
  cases hslot : s.active r with
  | none => simp [endOf, hslot] at ha
  | some o =>
    have hline := h.streams o (hs.owned_of_active hslot)
    simp only [endOf, hslot, Option.elim_some] at hst ⊢
    have hcurrent : ∀ p, (s.streams o).currentWritePacket = some p → Stage.ofType (some p.type) = .sent → p.body ≠ [] := by
      intro p hp hsent
      have hcarries := (hline.current p hp).2
      cases htype : p.type with
      | middle =>
        rw [htype] at hcarries
        exact hcarries
      | _ =>
        rw [htype] at hsent
        cases hsent
    have hwritten : Stage.ofType ((s.streams o).currentWritePacket.map Packet.type) = .sent →
        (s.streams o).currentWritePacket.elim [] Packet.body ≠ [] := by
      intro hsent
      cases hp : (s.streams o).currentWritePacket with
      | none =>
        rw [hp] at hsent
        cases hsent
      | some p =>
        rw [hp] at hsent
        exact hcurrent p hp hsent
    unfold writeType at hst
    cases hf : s.fibers o with
    | running =>
      rw [hf] at hst
      exact hwritten hst
    | reading len buf =>
      rw [hf] at hst
      exact hwritten hst
    | acquiring type rest =>
      rw [hf] at hst
      have hcarries := hline.acquiring type rest hf
      cases type with
      | middle => exact hcarries
      | _ => cases hst

namespace Connection

variable {x x' : Connection}

/-- No message is whole that was not flushed. -/
def Owing (x : Connection) : Prop := ∀ r, (x.lane r).Owing

theorem owing_established : established.Owing := by
  intro r
  have howes : ∀ b, Log.empty.Owes b := Log.owes_empty
  exact ⟨fun _ => howes _, fun _ => howes _, fun _ _ => howes _, fun _ => howes _, fun _ _ _ => howes _⟩

theorem Sound.holds (hx : x.Sound) (r : RequestId) : (x.lane r).client.Holds ∧ (x.lane r).server.Holds :=
  ⟨hx.clientLined.holds hx.client.sound.core r, hx.serverLined.holds hx.server.core r⟩

theorem Owing.step (h : x.Owing) (hx : x.Sound) {a : Action} (hp : x.Permitted a) (hs : x.step a = some x') : x'.Owing := by
  intro r
  have hx' := hx.step hp hs
  exact (h r).step (hx.lanes r) (lane_step hx hp hs r) (hx'.holds r).1 (hx'.holds r).2

end Connection
end Mrpc
