import MultiplexingRpc.BlobSerialize
import MultiplexingRpc.Lib.Run
/-!
# BlobLifeCycle — a blob with its owners and its streams (`mrpc_blob.c`)

A blob is created by its first owner, filled through one stream opened for writing and read through any number of
others.  `SharedBlob` is the blob with all of these and with what went through them: what was written, and for each
stream opened for reading what its reads returned.  Its runs are made of the calls that the assertions of the source
allow, while any file operation may fail (`lifeCycle_of_exec`).
-/
namespace Mrpc

/-- A stream opened for reading, and what its reads returned so far, in order. -/
structure BlobReader where
  data : BlobStreamData
  got : List UInt8
  deriving DecidableEq, Repr

/-- `owners`: the references of `mrpc_blob_create` and `mrpc_blob_inc_ref` that no `mrpc_blob_dec_ref` gave back;
`written`: what the writes that succeeded wrote, in order. -/
structure SharedBlob where
  blob : Blob
  fs : FileSystem
  owners : Nat
  writer : Option BlobStreamData
  readers : List BlobReader
  written : List UInt8

/-- An open file stays open under its new name. -/
def BlobStreamData.renamed (data : BlobStreamData) (path : String) : BlobStreamData :=
  { data with file := { data.file with path := path } }

namespace SharedBlob

/-- A call on the blob, or on one of its open streams: `i` is the place of a stream among those opened for reading. -/
inductive Action where
  | incRef
  | decRef
  | openWrite
  | openRead
  | write (buf : List UInt8)
  | flush
  | read (i len : Nat)
  | move (newFilePath : String)
  | deleteWriter
  | deleteReader (i : Nat)
  deriving DecidableEq, Repr

def create (filePath : String) (len : Int) (fs : FileSystem) : Except Fault SharedBlob := do
  let blob ← blobCreate filePath len
  .ok ⟨blob, fs, 1, none, [], []⟩

/-- The calls that may be made: an owner gives back a reference of its own, a stream is used while it is open, and the
rest is what the assertions of `mrpc_blob_inc_ref`, `mrpc_blob_open_stream` and `mrpc_blob_move` say. -/
def Allowed (s : SharedBlob) : Action → Prop
  | .incRef => 0 < s.blob.refCnt
  | .decRef => 0 < s.owners
  | .openWrite => s.blob.refCnt = 1 ∧ s.blob.state = .empty
  | .openRead => 0 < s.blob.refCnt ∧ s.blob.state = .complete
  | .write _ | .flush | .deleteWriter => s.writer.isSome
  | .read i _ | .deleteReader i => i < s.readers.length
  | .move _ => s.blob.refCnt = 1 ∧ s.blob.state = .complete

instance (s : SharedBlob) (a : Action) : Decidable (s.Allowed a) :=
  match a with
  | .incRef => inferInstanceAs (Decidable (0 < s.blob.refCnt))
  | .decRef => inferInstanceAs (Decidable (0 < s.owners))
  | .openWrite => inferInstanceAs (Decidable (s.blob.refCnt = 1 ∧ s.blob.state = .empty))
  | .openRead => inferInstanceAs (Decidable (0 < s.blob.refCnt ∧ s.blob.state = .complete))
  | .write _ | .flush | .deleteWriter => inferInstanceAs (Decidable (s.writer.isSome = true))
  | .read i _ | .deleteReader i => inferInstanceAs (Decidable (i < s.readers.length))
  | .move _ => inferInstanceAs (Decidable (s.blob.refCnt = 1 ∧ s.blob.state = .complete))

/-- A call; one on a stream that is not open does nothing, and is not allowed. -/
def perform (s : SharedBlob) : Action → Except Fault SharedBlob
  | .incRef => do
    let blob ← blobIncRef s.blob
    .ok { s with blob := blob, owners := s.owners + 1 }
  | .decRef => do
    let (blob, fs) ← blobDecRef s.blob s.fs
    .ok { s with blob := blob, fs := fs, owners := s.owners - 1 }
  | .openWrite => do
    match ← blobOpenStream s.blob .write s.fs with
    | (none, blob, fs) => .ok { s with blob := blob, fs := fs }
    | (some data, blob, fs) => .ok { s with blob := blob, fs := fs, writer := some data }
  | .openRead => do
    match ← blobOpenStream s.blob .read s.fs with
    | (none, blob, fs) => .ok { s with blob := blob, fs := fs }
    | (some data, blob, fs) => .ok { s with blob := blob, fs := fs, readers := s.readers ++ [⟨data, []⟩] }
  | .write buf =>
    match s.writer with
    | none => .ok s
    | some data => do
      match ← writeToBlobStream s.blob data buf s.fs with
      | (.success, data, fs) => .ok { s with fs := fs, writer := some data, written := s.written ++ buf }
      | (.failure, data, fs) => .ok { s with fs := fs, writer := some data }
  | .flush =>
    match s.writer with
    | none => .ok s
    | some data => do
      let (_, blob, fs) ← flushBlobStream s.blob data s.fs
      .ok { s with blob := blob, fs := fs }
  | .read i len =>
    match s.readers[i]? with
    | none => .ok s
    | some r => do
      match ← readFromBlobStream s.blob r.data len s.fs with
      | (some buf, data, fs) => .ok { s with fs := fs, readers := s.readers.set i ⟨data, r.got ++ buf⟩ }
      | (none, data, fs) => .ok { s with fs := fs, readers := s.readers.set i ⟨data, r.got⟩ }
  | .move newFilePath => do
    match ← blobMove s.blob newFilePath s.fs with
    | (.success, blob, fs) =>
      .ok { s with
        blob := blob
        fs := fs
        writer := s.writer.map (·.renamed newFilePath)
        readers := s.readers.map fun r => { r with data := r.data.renamed newFilePath } }
    | (.failure, blob, fs) => .ok { s with blob := blob, fs := fs }
  | .deleteWriter => do
    let (blob, fs) ← deleteBlobStream s.blob s.fs
    .ok { s with blob := blob, fs := fs, writer := none }
  | .deleteReader i => do
    let (blob, fs) ← deleteBlobStream s.blob s.fs
    .ok { s with blob := blob, fs := fs, readers := s.readers.eraseIdx i }

def step (s : SharedBlob) (a : Action) : Option SharedBlob := if s.Allowed a then (s.perform a).toOption else none

end SharedBlob

/-! ## The files behind it -/

namespace FileSystem

/-- One more operation was asked for, and it was no erasure. -/
def Logged (fs fs' : FileSystem) : Prop :=
  ∃ op result, (∀ path, op ≠ .erase path) ∧ fs'.history = fs.history ++ [(op, result)]

theorem logged_record {fs : FileSystem} {op : FileOp} (result : FfResult) (hop : ∀ path, op ≠ .erase path) :
    fs.Logged (fs.record op result) := ⟨op, result, hop, rfl⟩

/-- No file was to be erased since `fs`. -/
def Unerased (fs fs' : FileSystem) : Prop :=
  ∃ ops, fs'.history = fs.history ++ ops ∧ ∀ o ∈ ops, ∀ path, o.1 ≠ .erase path

/-- `ff_file_erase` was called once since `fs`, and nothing after it; unless the call failed the file is gone. -/
def ErasedLast (fs fs' : FileSystem) (path : String) : Prop :=
  ∃ ops result, fs'.history = fs.history ++ ops ++ [(.erase path, result)] ∧ (∀ o ∈ ops, ∀ path, o.1 ≠ .erase path) ∧
    (result = .success → fs'.files path = none)

variable {fs fs' fs'' : FileSystem}

theorem Unerased.refl (fs : FileSystem) : fs.Unerased fs := ⟨[], (List.append_nil _).symm, by simp⟩

theorem Unerased.logged (h : fs.Unerased fs') (hlog : fs'.Logged fs'') : fs.Unerased fs'' := by
  obtain ⟨ops, hops, hne⟩ := h
  obtain ⟨op, result, hop, hhist⟩ := hlog
  refine ⟨ops ++ [(op, result)], by rw [hhist, hops, List.append_assoc], fun o ho => ?_⟩
  rcases List.mem_append.1 ho with ho | ho
  · exact hne o ho
  · rw [List.mem_singleton.1 ho]
    exact hop

theorem Unerased.erase (h : fs.Unerased fs') (path : String) : fs.ErasedLast (fs'.erase path).2 path := by
  obtain ⟨ops, hops, hne⟩ := h
  obtain ⟨hhist, hgone⟩ := fs'.erase_spec path
  exact ⟨ops, fs'.outcome, by rw [hhist, hops], hne, hgone⟩

end FileSystem

namespace SharedBlob

variable {s s' : SharedBlob} {a : Action} {fs₀ : FileSystem}

/-- A reference is given back; the last one takes the file with it. -/
def release (s : SharedBlob) : SharedBlob :=
  { s with
    blob := { s.blob with refCnt := s.blob.refCnt - 1 }
    fs := if s.blob.refCnt = 1 ∧ s.blob.state ≠ .empty then (s.fs.erase s.blob.filePath).2 else s.fs }

theorem blobDecRef_eq (h : 0 < s.blob.refCnt) : blobDecRef s.blob s.fs = .ok (s.release.blob, s.release.fs) := by
  unfold blobDecRef release
  rw [ffAssert_of h, ok_bind]
  dsimp only
  by_cases hlast : s.blob.refCnt = 1
  · rw [if_pos (by omega), deleteBlob, ffAssert_of (show s.blob.refCnt - 1 = 0 by omega), ok_bind]
    by_cases hstate : s.blob.state = .empty
    · rw [if_neg (by simp [hstate]), if_neg (by simp [hstate])]
      rfl
    · rw [if_pos hstate, if_pos ⟨hlast, hstate⟩]
      rfl
  · rw [if_neg (by omega), if_neg (fun hand => hlast hand.1)]

theorem blobIncRef_eq {blob : Blob} (h : 0 < blob.refCnt) :
    blobIncRef blob = .ok { blob with refCnt := blob.refCnt + 1 } := by
  rw [blobIncRef, ffAssert_of (by omega), ok_bind]

theorem blobDecRef_of_lt {blob : Blob} {fs : FileSystem} (h : 1 < blob.refCnt) :
    blobDecRef blob fs = .ok ({ blob with refCnt := blob.refCnt - 1 }, fs) := by
  rw [blobDecRef, ffAssert_of (by omega), ok_bind]
  exact if_neg (by dsimp only; omega)

/-- A write past the end leaves everything as it is. -/
theorem writeToBlobStream_past {blob : Blob} {data : BlobStreamData} {buf : List UInt8} {fs : FileSystem}
    (hstate : blob.state ≠ .empty) (hmode : data.mode = .write) (hpos : 0 ≤ data.currPos) (hle : data.currPos ≤ blob.len)
    (hpast : blob.len < data.currPos + buf.length) : writeToBlobStream blob data buf fs = .ok (.failure, data, fs) := by
  obtain ⟨file, mode, currPos⟩ := data
  cases hmode
  unfold writeToBlobStream
  dsimp only at hpos hle hpast ⊢
  rw [ffAssert_of hstate, ffAssert_of hpos, ffAssert_of hle, ok_bind, ok_bind, ok_bind, if_neg (by omega)]

theorem readFromBlobStream_past {blob : Blob} {file : FfFile} {pos len : Nat} {fs : FileSystem}
    (hstate : blob.state = .complete) (hle : (pos : Int) ≤ blob.len) (hpast : blob.len < pos + len) :
    readFromBlobStream blob ⟨file, .read, pos⟩ len fs = .ok (none, ⟨file, .read, pos⟩, fs) := by
  unfold readFromBlobStream
  rw [ffAssert_of rfl, ffAssert_of hstate, ffAssert_of (by dsimp only; omega), ffAssert_of hle,
    ok_bind, ok_bind, ok_bind, ok_bind]
  exact if_neg (by dsimp only; omega)

/-! ## What holds after every run -/

/-- The references are counted, the streams are where the bytes that went through them end, and the file holds what was
written; the blob is complete only with all of its bytes, and erased only with its last reference. -/
structure Sound (fs₀ : FileSystem) (s : SharedBlob) : Prop where
  refCnt : s.blob.refCnt = s.owners + s.writer.toList.length + s.readers.length
  empty : s.blob.state = .empty → s.writer = none ∧ s.written = [] ∧ s.fs.files = fs₀.files
  file : 0 < s.blob.refCnt → s.blob.state ≠ .empty → s.fs.files s.blob.filePath = some s.written
  room : (s.written.length : Int) ≤ s.blob.len
  complete : s.blob.state = .complete → (s.written.length : Int) = s.blob.len
  writer : ∀ data, s.writer = some data → data = ⟨⟨s.blob.filePath, 0⟩, .write, s.written.length⟩
  readers : ∀ r ∈ s.readers, s.blob.state = .complete ∧
    r.data = ⟨⟨s.blob.filePath, r.got.length⟩, .read, r.got.length⟩ ∧ r.got <+: s.written
  kept : 0 < s.blob.refCnt ∨ s.blob.state = .empty → fs₀.Unerased s.fs
  gone : s.blob.refCnt = 0 → s.blob.state ≠ .empty → fs₀.ErasedLast s.fs s.blob.filePath

/-! ## What a call comes to -/

/-- The outcome of every call that is allowed. -/
inductive Outcome (s : SharedBlob) : Action → SharedBlob → Prop where
  | incRef (href : 0 < s.blob.refCnt) :
    Outcome s .incRef { s with blob := { s.blob with refCnt := s.blob.refCnt + 1 }, owners := s.owners + 1 }
  | decRef (hown : 0 < s.owners) : Outcome s .decRef { s.release with owners := s.owners - 1 }
  | openWrite {fs'} (href : s.blob.refCnt = 1) (hstate : s.blob.state = .empty)
    (hfile : fs'.files s.blob.filePath = some []) (hlog : s.fs.Logged fs') :
    Outcome s .openWrite { s with
      blob := { s.blob with refCnt := 2, state := .incomplete }
      fs := fs'
      writer := some ⟨⟨s.blob.filePath, 0⟩, .write, 0⟩ }
  | openRead {fs'} (href : 0 < s.blob.refCnt) (hstate : s.blob.state = .complete) (hfiles : fs'.files = s.fs.files)
    (hlog : s.fs.Logged fs') :
    Outcome s .openRead { s with
      blob := { s.blob with refCnt := s.blob.refCnt + 1 }
      fs := fs'
      readers := s.readers ++ [⟨⟨⟨s.blob.filePath, 0⟩, .read, 0⟩, []⟩] }
  | write {buf data fs'} (hw : s.writer = some data) (hroom : (s.written.length + buf.length : Int) ≤ s.blob.len)
    (hout : s.fs.outcome = .success) (hfile : fs'.files s.blob.filePath = some (s.written ++ buf))
    (hlog : s.fs.Logged fs') :
    Outcome s (.write buf) { s with
      fs := fs'
      writer := some { data with currPos := data.currPos + buf.length }
      written := s.written ++ buf }
  | writePast {buf} (hpast : s.blob.len < s.written.length + buf.length) : Outcome s (.write buf) s
  | flush {fs'} (hw : s.writer.isSome) (hfull : (s.written.length : Int) = s.blob.len) (hout : s.fs.outcome = .success)
    (hfiles : fs'.files = s.fs.files) (hlog : s.fs.Logged fs') :
    Outcome s .flush { s with blob := { s.blob with state := .complete }, fs := fs' }
  | flushEarly {fs'} (hless : (s.written.length : Int) ≠ s.blob.len) (hfiles : fs'.files = s.fs.files)
    (hlog : s.fs.Logged fs') : Outcome s .flush { s with fs := fs' }
  | read {i len : Nat} {r fs'} (hr : s.readers[i]? = some r) (hroom : r.got.length + len ≤ s.written.length)
    (hout : s.fs.outcome = .success) (hfiles : fs'.files = s.fs.files) (hlog : s.fs.Logged fs') :
    Outcome s (.read i len) { s with
      fs := fs'
      readers := s.readers.set i ⟨⟨⟨s.blob.filePath, r.got.length + len⟩, .read, (r.got.length + len : Nat)⟩,
        r.got ++ (s.written.drop r.got.length).take len⟩ }
  | readPast {i len : Nat} {r} (hr : s.readers[i]? = some r) (hpast : s.blob.len < r.got.length + len) :
    Outcome s (.read i len) s
  | move {path fs'} (href : s.blob.refCnt = 1) (hstate : s.blob.state = .complete)
    (hfile : fs'.files path = some s.written) (hlog : s.fs.Logged fs') :
    Outcome s (.move path) { s with
      blob := { s.blob with filePath := path }
      fs := fs'
      writer := s.writer.map (·.renamed path)
      readers := s.readers.map fun r => { r with data := r.data.renamed path } }
  | failed {a fs'} (hout : s.fs.outcome = .failure) (hfiles : fs'.files = s.fs.files) (hlog : s.fs.Logged fs') :
    Outcome s a { s with fs := fs' }
  | deleteWriter (hw : s.writer.isSome) : Outcome s .deleteWriter { s.release with writer := none }
  | deleteReader {i} (hi : i < s.readers.length) :
    Outcome s (.deleteReader i) { s.release with readers := s.readers.eraseIdx i }

theorem Sound.refCnt_pos (hs : s.Sound fs₀) (h : 0 < s.owners ∨ s.writer.isSome ∨ s.readers ≠ []) :
    0 < s.blob.refCnt := by
  rw [hs.refCnt]
  rcases h with h | h | h
  · omega
  · obtain ⟨data, hdata⟩ := Option.isSome_iff_exists.1 h
    rw [hdata, Option.toList_some, List.length_singleton]
    omega
  · have := List.length_pos_iff.2 h
    omega

/-- Nothing may be done with a blob that is freed. -/
theorem Sound.refCnt_pos_of_allowed (hs : s.Sound fs₀) (ha : s.Allowed a) : 0 < s.blob.refCnt := by
  cases a with
  | incRef => exact ha
  | decRef => exact hs.refCnt_pos (.inl ha)
  | openWrite => exact ha.1 ▸ Nat.one_pos
  | openRead => exact ha.1
  | write _ | flush | deleteWriter => exact hs.refCnt_pos (.inr (.inl ha))
  | read i _ | deleteReader i => exact hs.refCnt_pos (.inr (.inr (List.ne_nil_of_length_pos (Nat.zero_lt_of_lt ha))))
  | move _ => exact ha.1 ▸ Nat.one_pos

theorem failed_record {op : FileOp} (hout : s.fs.outcome = .failure) (hop : ∀ path, op ≠ .erase path) :
    Outcome s a { s with fs := s.fs.record op .failure } :=
  .failed hout rfl (FileSystem.logged_record .failure hop)

theorem outcome_incRef (href : 0 < s.blob.refCnt) : ∃ s', s.perform .incRef = .ok s' ∧ Outcome s .incRef s' := by
  refine ⟨_, ?_, .incRef href⟩
  rw [perform, blobIncRef_eq href]
  rfl

theorem Sound.outcome_decRef (hs : s.Sound fs₀) (hown : 0 < s.owners) :
    ∃ s', s.perform .decRef = .ok s' ∧ Outcome s .decRef s' := by
  refine ⟨_, ?_, .decRef hown⟩
  rw [perform, blobDecRef_eq (hs.refCnt_pos (.inl hown))]
  rfl

theorem outcome_openWrite (href : s.blob.refCnt = 1) (hstate : s.blob.state = .empty) :
    ∃ s', s.perform .openWrite = .ok s' ∧ Outcome s .openWrite s' := by
  rw [perform, blobOpenStream, ffAssert_of (by omega), ok_bind]
  dsimp only
  rw [ffAssert_of href, ffAssert_of hstate, blobIncRef_eq (by omega), ok_bind, ok_bind, ok_bind]
  unfold FileSystem.openWrite
  cases hout : s.fs.outcome with
  | success =>
    refine ⟨_, rfl, ?_⟩
    rw [href]
    exact .openWrite href hstate (Function.update_self ..) ⟨.openWrite s.blob.filePath, .success, by simp, rfl⟩
  | failure =>
    dsimp only
    rw [blobDecRef_of_lt (by dsimp only; omega)]
    exact ⟨_, rfl, failed_record hout (by simp)⟩

theorem Sound.outcome_openRead (hs : s.Sound fs₀) (href : 0 < s.blob.refCnt) (hstate : s.blob.state = .complete) :
    ∃ s', s.perform .openRead = .ok s' ∧ Outcome s .openRead s' := by
  rw [perform, blobOpenStream, ffAssert_of href, ok_bind]
  dsimp only
  rw [ffAssert_of hstate, blobIncRef_eq href, ok_bind, ok_bind]
  unfold FileSystem.openRead
  dsimp only
  rw [hs.file href (by simp [hstate])]
  cases hout : s.fs.outcome with
  | success =>
    exact ⟨_, rfl, .openRead href hstate rfl (FileSystem.logged_record .success (by simp))⟩
  | failure =>
    dsimp only
    rw [blobDecRef_of_lt (by dsimp only; omega)]
    exact ⟨_, rfl, failed_record hout (by simp)⟩

/-- A stream opened for writing is open on an incomplete or a complete blob, with its file. -/
theorem Sound.of_writer (hs : s.Sound fs₀) (hw : s.writer.isSome) :
    s.writer = some ⟨⟨s.blob.filePath, 0⟩, .write, s.written.length⟩ ∧ s.blob.state ≠ .empty ∧
      s.fs.files s.blob.filePath = some s.written := by
  obtain ⟨data, hdata⟩ := Option.isSome_iff_exists.1 hw
  have hstate : s.blob.state ≠ .empty := by
    intro h
    rw [(hs.empty h).1] at hdata
    cases hdata
  refine ⟨?_, hstate, hs.file (hs.refCnt_pos (.inr (.inl hw))) hstate⟩
  rw [hdata, hs.writer data hdata]

theorem Sound.outcome_write (hs : s.Sound fs₀) (hw : s.writer.isSome) (buf : List UInt8) :
    ∃ s', s.perform (.write buf) = .ok s' ∧ Outcome s (.write buf) s' := by
  obtain ⟨hdata, hstate, hfile⟩ := hs.of_writer hw
  rw [perform, hdata]
  dsimp only
  by_cases hroom : (s.written.length + buf.length : Int) ≤ s.blob.len
  · rw [writeToBlobStream_eq hstate rfl (by dsimp only; omega) hroom]
    unfold FileSystem.write
    cases hout : s.fs.outcome with
    | success =>
      refine ⟨_, rfl, .write hdata hroom hout ?_ ⟨.write s.blob.filePath buf.length, .success, by simp, rfl⟩⟩
      simp only [hfile, Function.update_self, Option.map_some]
    | failure =>
      refine ⟨_, rfl, ?_⟩
      rw [← hdata]
      exact failed_record hout (by simp)
  · rw [writeToBlobStream_past hstate rfl (by dsimp only; omega) (by have := hs.room; dsimp only; omega)
      (by dsimp only; omega)]
    refine ⟨_, rfl, ?_⟩
    rw [← hdata]
    exact .writePast (by omega)

theorem Sound.outcome_flush (hs : s.Sound fs₀) (hw : s.writer.isSome) :
    ∃ s', s.perform .flush = .ok s' ∧ Outcome s .flush s' := by
  obtain ⟨hdata, hstate, -⟩ := hs.of_writer hw
  rw [perform, hdata]
  dsimp only
  unfold flushBlobStream
  rw [ffAssert_of rfl, ffAssert_of hstate, ok_bind, ok_bind]
  unfold FileSystem.flush
  cases hout : s.fs.outcome with
  | success =>
    dsimp only
    by_cases hfull : (s.written.length : Int) = s.blob.len
    · rw [if_pos hfull]
      refine ⟨_, rfl, ?_⟩
      rw [← hdata]
      exact .flush hw hfull hout rfl (FileSystem.logged_record .success (by simp))
    · rw [if_neg hfull]
      refine ⟨_, rfl, ?_⟩
      rw [← hdata]
      exact .flushEarly hfull rfl (FileSystem.logged_record .success (by simp))
  | failure =>
    refine ⟨_, rfl, ?_⟩
    rw [← hdata]
    exact failed_record hout (by simp)

theorem readers_set_same {i : Nat} {r : BlobReader} (hr : s.readers[i]? = some r) :
    s.readers.set i ⟨r.data, r.got⟩ = s.readers := by
  obtain ⟨hi, hri⟩ := List.getElem?_eq_some_iff.1 hr
  rw [← hri]
  exact List.set_getElem_self hi

theorem Sound.outcome_read (hs : s.Sound fs₀) {i : Nat} (hi : i < s.readers.length) (len : Nat) :
    ∃ s', s.perform (.read i len) = .ok s' ∧ Outcome s (.read i len) s' := by
  obtain ⟨r, hr⟩ : ∃ r, s.readers[i]? = some r := ⟨_, List.getElem?_eq_getElem hi⟩
  obtain ⟨hstate, hdata, hgot⟩ := hs.readers r (List.mem_of_getElem? hr)
  have hsame := readers_set_same hr
  have hlen := hs.complete hstate
  have hle := hgot.length_le
  have hfile := hs.file (hs.refCnt_pos (.inr (.inr (List.ne_nil_of_length_pos (by omega))))) (by simp [hstate])
  rw [perform, hr]
  dsimp only
  by_cases hroom : (r.got.length + len : Int) ≤ s.blob.len
  · rw [hdata, readFromBlobStream_eq hstate hroom]
    unfold FileSystem.read
    rw [hfile]
    cases hout : s.fs.outcome with
    | success =>
      dsimp only
      rw [if_pos (by omega)]
      exact ⟨_, rfl, .read hr (by omega) hout rfl (FileSystem.logged_record .success (by simp))⟩
    | failure =>
      refine ⟨_, rfl, ?_⟩
      rw [← hdata, hsame]
      exact failed_record hout (by simp)
  · rw [hdata, readFromBlobStream_past hstate (by omega) (by omega)]
    refine ⟨_, rfl, ?_⟩
    rw [← hdata, hsame]
    exact .readPast hr (by omega)

theorem Sound.outcome_move (hs : s.Sound fs₀) (href : s.blob.refCnt = 1) (hstate : s.blob.state = .complete)
    (path : String) : ∃ s', s.perform (.move path) = .ok s' ∧ Outcome s (.move path) s' := by
  rw [perform, blobMove, ffAssert_of hstate, ffAssert_of href, blobIncRef_eq (by omega), ok_bind, ok_bind, ok_bind]
  unfold FileSystem.move
  dsimp only
  rw [hs.file (by omega) (by simp [hstate])]
  cases hout : s.fs.outcome with
  | success =>
    dsimp only
    rw [blobDecRef_of_lt (by dsimp only; omega)]
    exact ⟨_, rfl, .move href hstate (Function.update_self ..)
      ⟨.move s.blob.filePath path, .success, by simp, rfl⟩⟩
  | failure =>
    dsimp only
    rw [blobDecRef_of_lt (by dsimp only; omega)]
    exact ⟨_, rfl, failed_record hout (by simp)⟩

theorem Sound.outcome_deleteWriter (hs : s.Sound fs₀) (hw : s.writer.isSome) :
    ∃ s', s.perform .deleteWriter = .ok s' ∧ Outcome s .deleteWriter s' := by
  refine ⟨_, ?_, .deleteWriter hw⟩
  rw [perform, deleteBlobStream, blobDecRef_eq (hs.refCnt_pos (.inr (.inl hw)))]
  rfl

theorem Sound.outcome_deleteReader (hs : s.Sound fs₀) {i : Nat} (hi : i < s.readers.length) :
    ∃ s', s.perform (.deleteReader i) = .ok s' ∧ Outcome s (.deleteReader i) s' := by
  refine ⟨_, ?_, .deleteReader hi⟩
  rw [perform, deleteBlobStream, blobDecRef_eq (hs.refCnt_pos (.inr (.inr (List.ne_nil_of_length_pos (by omega)))))]
  rfl

/-- **No call that is allowed fails an assertion**, and each has one of the outcomes. -/
theorem Sound.outcome (hs : s.Sound fs₀) (ha : s.Allowed a) : ∃ s', s.perform a = .ok s' ∧ Outcome s a s' := by
  cases a with
  | incRef => exact outcome_incRef ha
  | decRef => exact hs.outcome_decRef ha
  | openWrite => exact outcome_openWrite ha.1 ha.2
  | openRead => exact hs.outcome_openRead ha.1 ha.2
  | write buf => exact hs.outcome_write ha buf
  | flush => exact hs.outcome_flush ha
  | read i len => exact hs.outcome_read ha len
  | move path => exact hs.outcome_move ha.1 ha.2 path
  | deleteWriter => exact hs.outcome_deleteWriter ha
  | deleteReader i => exact hs.outcome_deleteReader ha

/-! ## What every call keeps -/

theorem sound_create (filePath : String) {len : Int} (hlen : 0 ≤ len) (fs₀ : FileSystem) :
    ∃ s₀, create filePath len fs₀ = .ok s₀ ∧ s₀.Sound fs₀ ∧ s₀.blob.len = len := by
  refine ⟨⟨⟨filePath, len, .empty, 1⟩, fs₀, 1, none, [], []⟩, ?_, ?_, rfl⟩
  · rw [create, blobCreate, ffAssert_of hlen, ok_bind, ok_bind]
  · exact {
      refCnt := rfl
      empty := fun _ => ⟨rfl, rfl, rfl⟩
      file := fun _ h => absurd rfl h
      room := hlen
      complete := fun h => by cases h
      writer := fun _ h => by cases h
      readers := fun _ h => by cases h
      kept := fun _ => .refl fs₀
      gone := fun h => by cases h }

/-- **Giving back a reference**, of an owner or of a stream, keeps all of it. -/
theorem Sound.release (hs : s.Sound fs₀) {owners : Nat} {writer : Option BlobStreamData} {readers : List BlobReader}
    (hcount : s.blob.refCnt = owners + writer.toList.length + readers.length + 1)
    (hwriter : ∀ data, writer = some data → s.writer = some data) (hreaders : readers ⊆ s.readers) :
    Sound fs₀ { s.release with owners := owners, writer := writer, readers := readers } where
  refCnt := by
    change s.blob.refCnt - 1 = owners + writer.toList.length + readers.length
    omega
  empty hstate := by
    change s.blob.state = .empty at hstate
    obtain ⟨hnone, hwritten, hfiles⟩ := hs.empty hstate
    refine ⟨?_, hwritten, ?_⟩
    · cases writer with
      | none => rfl
      | some data =>
        have := hwriter data rfl
        rw [hnone] at this
        cases this
    · simp only [SharedBlob.release, hstate, ne_eq, not_true_eq_false, and_false, if_false, hfiles]
  file hpos hstate := by
    change 0 < s.blob.refCnt - 1 at hpos
    have hlast : ¬ (s.blob.refCnt = 1 ∧ s.blob.state ≠ .empty) := by omega
    simp only [SharedBlob.release, if_neg hlast]
    exact hs.file (by omega) hstate
  room := hs.room
  complete := hs.complete
  writer data h := hs.writer data (hwriter data h)
  readers r hr := hs.readers r (hreaders hr)
  kept h := by
    change 0 < s.blob.refCnt - 1 ∨ s.blob.state = .empty at h
    have hlast : ¬ (s.blob.refCnt = 1 ∧ s.blob.state ≠ .empty) := by
      rintro ⟨href, hstate⟩
      rcases h with h | h
      · omega
      · exact hstate h
    simp only [SharedBlob.release, if_neg hlast]
    exact hs.kept (.inl (by omega))
  gone h hstate := by
    change s.blob.refCnt - 1 = 0 at h
    have hlast : s.blob.refCnt = 1 ∧ s.blob.state ≠ .empty := ⟨by omega, hstate⟩
    simp only [SharedBlob.release, if_pos hlast]
    exact (hs.kept (.inl (by omega))).erase s.blob.filePath

/-- A call that only looked at the files, or failed. -/
theorem Sound.looked (hs : s.Sound fs₀) (hpos : 0 < s.blob.refCnt) {fs' : FileSystem} (hfiles : fs'.files = s.fs.files)
    (hlog : s.fs.Logged fs') : Sound fs₀ { s with fs := fs' } where
  refCnt := hs.refCnt
  empty hstate := by
    obtain ⟨hnone, hwritten, h⟩ := hs.empty hstate
    exact ⟨hnone, hwritten, hfiles.trans h⟩
  file _ hstate := by
    dsimp only
    rw [hfiles]
    exact hs.file hpos hstate
  room := hs.room
  complete := hs.complete
  writer := hs.writer
  readers := hs.readers
  kept _ := (hs.kept (.inl hpos)).logged hlog
  gone h := absurd h (show s.blob.refCnt ≠ 0 by omega)

theorem Sound.incRef (hs : s.Sound fs₀) (hpos : 0 < s.blob.refCnt) :
    Sound fs₀ { s with blob := { s.blob with refCnt := s.blob.refCnt + 1 }, owners := s.owners + 1 } :=
  { hs with
    refCnt := by
      have := hs.refCnt
      dsimp only
      omega
    file := fun _ => hs.file hpos
    kept := fun _ => hs.kept (.inl hpos)
    gone := fun h => absurd h (Nat.succ_ne_zero _) }

theorem Sound.openWrite (hs : s.Sound fs₀) (href : s.blob.refCnt = 1) (hstate : s.blob.state = .empty)
    {fs' : FileSystem} (hfile : fs'.files s.blob.filePath = some []) (hlog : s.fs.Logged fs') :
    Sound fs₀ { s with
      blob := { s.blob with refCnt := 2, state := .incomplete }
      fs := fs'
      writer := some ⟨⟨s.blob.filePath, 0⟩, .write, 0⟩ } := by
  obtain ⟨hnone, hwritten, -⟩ := hs.empty hstate
  exact {
    refCnt := by
      have := hs.refCnt
      rw [hnone, Option.toList_none, List.length_nil] at this
      rw [Option.toList_some, List.length_singleton]
      dsimp only
      omega
    empty := fun h => by cases h
    file := fun _ _ => by rw [hwritten]; exact hfile
    room := hs.room
    complete := fun h => by cases h
    writer := by
      rintro data ⟨⟩
      rw [hwritten]
      rfl
    readers := fun r hr => by
      -- nothing was ever opened for reading
      have := (hs.readers r hr).1
      rw [hstate] at this
      cases this
    kept := fun _ => (hs.kept (.inr hstate)).logged hlog
    gone := fun h => by cases h }

theorem Sound.openRead (hs : s.Sound fs₀) (hpos : 0 < s.blob.refCnt) (hstate : s.blob.state = .complete)
    {fs' : FileSystem} (hfiles : fs'.files = s.fs.files) (hlog : s.fs.Logged fs') :
    Sound fs₀ { s with
      blob := { s.blob with refCnt := s.blob.refCnt + 1 }
      fs := fs'
      readers := s.readers ++ [⟨⟨⟨s.blob.filePath, 0⟩, .read, 0⟩, []⟩] } :=
  { hs.looked hpos hfiles hlog with
    refCnt := by
      have := hs.refCnt
      rw [List.length_append, List.length_singleton]
      dsimp only
      omega
    file := fun _ => (hs.looked hpos hfiles hlog).file hpos
    readers := fun r hr => by
      rcases List.mem_append.1 hr with hr | hr
      · exact hs.readers r hr
      · rw [List.mem_singleton.1 hr]
        exact ⟨hstate, rfl, List.nil_prefix⟩
    kept := fun _ => (hs.kept (.inl hpos)).logged hlog
    gone := fun h => absurd h (Nat.succ_ne_zero _) }

theorem Sound.write (hs : s.Sound fs₀) {data : BlobStreamData} {buf : List UInt8} (hw : s.writer = some data)
    (hroom : (s.written.length + buf.length : Int) ≤ s.blob.len) {fs' : FileSystem}
    (hfile : fs'.files s.blob.filePath = some (s.written ++ buf)) (hlog : s.fs.Logged fs') :
    Sound fs₀ { s with
      fs := fs'
      writer := some { data with currPos := data.currPos + buf.length }
      written := s.written ++ buf } := by
  have hpos : 0 < s.blob.refCnt := hs.refCnt_pos (.inr (.inl (by rw [hw]; rfl)))
  exact {
    refCnt := by
      have := hs.refCnt
      rw [hw] at this
      exact this
    empty := fun h => by
      have := (hs.empty h).1
      rw [hw] at this
      cases this
    file := fun _ _ => hfile
    room := by
      dsimp only
      rw [List.length_append, Nat.cast_add]
      exact hroom
    complete := fun h => by
      have := hs.complete h
      dsimp only at hroom ⊢
      rw [List.length_append, Nat.cast_add]
      omega
    writer := by
      rintro data' ⟨⟩
      rw [hs.writer data hw, List.length_append, Nat.cast_add]
    readers := fun r hr => by
      obtain ⟨hstate, hdata, hgot⟩ := hs.readers r hr
      exact ⟨hstate, hdata, hgot.trans (List.prefix_append ..)⟩
    kept := fun _ => (hs.kept (.inl hpos)).logged hlog
    gone := fun h => absurd h (show s.blob.refCnt ≠ 0 by omega) }

theorem Sound.flush (hs : s.Sound fs₀) (hw : s.writer.isSome) (hfull : (s.written.length : Int) = s.blob.len)
    {fs' : FileSystem} (hfiles : fs'.files = s.fs.files) (hlog : s.fs.Logged fs') :
    Sound fs₀ { s with blob := { s.blob with state := .complete }, fs := fs' } := by
  have hpos : 0 < s.blob.refCnt := hs.refCnt_pos (.inr (.inl hw))
  exact { hs with
    empty := fun h => by cases h
    file := fun _ _ => by
      dsimp only
      rw [hfiles]
      exact (hs.of_writer hw).2.2
    complete := fun _ => hfull
    readers := fun r hr => ⟨rfl, (hs.readers r hr).2⟩
    kept := fun _ => (hs.kept (.inl hpos)).logged hlog
    gone := fun h => absurd h (show s.blob.refCnt ≠ 0 by omega) }

theorem Sound.read (hs : s.Sound fs₀) {i len : Nat} {r : BlobReader} (hr : s.readers[i]? = some r)
    (hroom : r.got.length + len ≤ s.written.length) {fs' : FileSystem} (hfiles : fs'.files = s.fs.files)
    (hlog : s.fs.Logged fs') :
    Sound fs₀ { s with
      fs := fs'
      readers := s.readers.set i ⟨⟨⟨s.blob.filePath, r.got.length + len⟩, .read, (r.got.length + len : Nat)⟩,
        r.got ++ (s.written.drop r.got.length).take len⟩ } := by
  have hmem : r ∈ s.readers := List.mem_of_getElem? hr
  obtain ⟨hstate, -, hgot⟩ := hs.readers r hmem
  have hpos : 0 < s.blob.refCnt := hs.refCnt_pos (.inr (.inr (List.ne_nil_of_mem hmem)))
  have hnext : r.got ++ (s.written.drop r.got.length).take len = s.written.take (r.got.length + len) := by
    rw [List.take_add, ← List.prefix_iff_eq_take.1 hgot]
  exact { hs.looked hpos hfiles hlog with
    refCnt := by
      dsimp only
      rw [List.length_set]
      exact hs.refCnt
    readers := fun r' hr' => by
      rcases List.mem_or_eq_of_mem_set hr' with hr' | rfl
      · exact hs.readers r' hr'
      · refine ⟨hstate, ?_, ?_⟩
        · rw [hnext, List.length_take_of_le hroom]
        · rw [hnext]
          exact List.take_prefix .. }

theorem Sound.move (hs : s.Sound fs₀) (href : s.blob.refCnt = 1) (hstate : s.blob.state = .complete) {path : String}
    {fs' : FileSystem} (hfile : fs'.files path = some s.written) (hlog : s.fs.Logged fs') :
    Sound fs₀ { s with
      blob := { s.blob with filePath := path }
      fs := fs'
      writer := s.writer.map (·.renamed path)
      readers := s.readers.map fun r => { r with data := r.data.renamed path } } where
  refCnt := by
    dsimp only
    rw [List.length_map, Option.toList_map, List.length_map]
    exact hs.refCnt
  empty h := by
    rw [hstate] at h
    cases h
  file _ _ := hfile
  room := hs.room
  complete := hs.complete
  writer data hdata := by
    obtain ⟨data, hw, rfl⟩ := Option.map_eq_some_iff.1 hdata
    rw [hs.writer data hw]
    rfl
  readers r hr := by
    obtain ⟨r, hmem, rfl⟩ := List.mem_map.1 hr
    obtain ⟨-, hdata, hgot⟩ := hs.readers r hmem
    refine ⟨hstate, ?_, hgot⟩
    dsimp only
    rw [hdata]
    rfl
  kept _ := (hs.kept (.inl (by omega))).logged hlog
  gone h := absurd h (show s.blob.refCnt ≠ 0 by omega)

/-- **Every call keeps it.** -/
theorem Sound.of_outcome (hs : s.Sound fs₀) (ha : s.Allowed a) (h : Outcome s a s') : s'.Sound fs₀ := by
  cases h with
  | incRef href => exact hs.incRef href
  | decRef hown =>
    refine hs.release ?_ (fun _ h => h) (List.Subset.refl _)
    have := hs.refCnt
    change s.blob.refCnt = s.owners - 1 + s.writer.toList.length + s.readers.length + 1
    omega
  | openWrite href hstate hfile hlog => exact hs.openWrite href hstate hfile hlog
  | openRead href hstate hfiles hlog => exact hs.openRead href hstate hfiles hlog
  | write hw hroom _ hfile hlog => exact hs.write hw hroom hfile hlog
  | writePast _ => exact hs
  | flush hw hfull _ hfiles hlog => exact hs.flush hw hfull hfiles hlog
  | flushEarly _ hfiles hlog => exact hs.looked (hs.refCnt_pos_of_allowed ha) hfiles hlog
  | read hr hroom _ hfiles hlog => exact hs.read hr hroom hfiles hlog
  | readPast _ _ => exact hs
  | move href hstate hfile hlog => exact hs.move href hstate hfile hlog
  | failed _ hfiles hlog => exact hs.looked (hs.refCnt_pos_of_allowed ha) hfiles hlog
  | deleteWriter hw =>
    refine hs.release ?_ (fun _ h => by cases h) (List.Subset.refl _)
    obtain ⟨hdata, -⟩ := hs.of_writer hw
    have := hs.refCnt
    rw [hdata, Option.toList_some, List.length_singleton] at this
    change s.blob.refCnt = s.owners + 0 + s.readers.length + 1
    omega
  | deleteReader hi =>
    refine hs.release ?_ (fun _ h => h) (List.eraseIdx_subset ..)
    have := hs.refCnt
    rw [List.length_eraseIdx_of_lt hi]
    change s.blob.refCnt = s.owners + s.writer.toList.length + (s.readers.length - 1) + 1
    omega


/-! ## What a call changes -/

/-- What a call that is allowed changes. -/
structure Effect (s : SharedBlob) (a : Action) (s' : SharedBlob) : Prop where
  completes : s.blob.state ≠ .complete → s'.blob.state = .complete →
    a = .flush ∧ (s.written.length : Int) = s.blob.len ∧ s.fs.outcome = .success
  keeps : s.blob.state = .complete → s'.blob.state = .complete ∧ s'.written = s.written
  len_eq : s'.blob.len = s.blob.len
  writes : ∀ buf, a = .write buf → s'.written =
    if (s.written.length + buf.length : Int) ≤ s.blob.len ∧ s.fs.outcome = .success then s.written ++ buf else s.written
  reads : ∀ (i len : Nat) r, a = .read i len → s.readers[i]? = some r → ∃ data, s'.readers = s.readers.set i ⟨data,
    if (r.got.length + len : Int) ≤ s.blob.len ∧ s.fs.outcome = .success
      then r.got ++ (s.written.drop r.got.length).take len else r.got⟩

theorem Outcome.completes (h : Outcome s a s') (hstate : s.blob.state ≠ .complete)
    (hstate' : s'.blob.state = .complete) :
    a = .flush ∧ (s.written.length : Int) = s.blob.len ∧ s.fs.outcome = .success := by
  cases h with
  | flush _ hfull hout => exact ⟨rfl, hfull, hout⟩
  | openWrite => cases hstate'
  | _ => exact absurd hstate' hstate

/-- Once complete, there is room for writes of nothing only. -/
theorem Sound.keeps (hs : s.Sound fs₀) (h : Outcome s a s') (hstate : s.blob.state = .complete) :
    s'.blob.state = .complete ∧ s'.written = s.written := by
  cases h with
  | openWrite _ hempty =>
    rw [hstate] at hempty
    cases hempty
  | @write buf _ _ _ hroom =>
    have hfull := hs.complete hstate
    have hnil : buf = [] := List.eq_nil_of_length_eq_zero (by omega)
    refine ⟨hstate, ?_⟩
    dsimp only
    rw [hnil, List.append_nil]
  | flush => exact ⟨rfl, rfl⟩
  | _ => exact ⟨hstate, rfl⟩

theorem Outcome.writes {buf : List UInt8} (h : Outcome s (.write buf) s') : s'.written =
    if (s.written.length + buf.length : Int) ≤ s.blob.len ∧ s.fs.outcome = .success then s.written ++ buf
      else s.written := by
  cases h with
  | write _ hroom hout => rw [if_pos ⟨hroom, hout⟩]
  | writePast hpast => rw [if_neg (by omega)]
  | failed hout => rw [if_neg (by simp [hout])]

theorem Sound.reads (hs : s.Sound fs₀) {i len : Nat} {r : BlobReader} (h : Outcome s (.read i len) s')
    (hr : s.readers[i]? = some r) : ∃ data, s'.readers = s.readers.set i ⟨data,
      if (r.got.length + len : Int) ≤ s.blob.len ∧ s.fs.outcome = .success
        then r.got ++ (s.written.drop r.got.length).take len else r.got⟩ := by
  have hfull := hs.complete (hs.readers r (List.mem_of_getElem? hr)).1
  have hsame := readers_set_same hr
  cases h with
  | read hr' hroom hout =>
    rw [hr] at hr'
    cases hr'
    exact ⟨_, by rw [if_pos ⟨by omega, hout⟩]⟩
  | readPast hr' hpast =>
    rw [hr] at hr'
    cases hr'
    exact ⟨r.data, by rw [if_neg (by omega), hsame]⟩
  | failed hout => exact ⟨r.data, by rw [if_neg (by simp [hout]), hsame]⟩

theorem Sound.effect (hs : s.Sound fs₀) (h : Outcome s a s') : s.Effect a s' where
  completes := h.completes
  keeps := hs.keeps h
  len_eq := by cases h with | _ => rfl
  writes buf hbuf := by
    subst hbuf
    exact h.writes
  reads i len r hread hr := by
    subst hread
    exact hs.reads h hr

/-! ## Every run -/

theorem perform_of_step (h : step s a = some s') : s.Allowed a ∧ s.perform a = .ok s' := by
  unfold step at h
  split at h
  · rename_i ha
    refine ⟨ha, ?_⟩
    cases hp : s.perform a with
    | error e =>
      rw [hp] at h
      cases h
    | ok t =>
      rw [hp] at h
      cases h
      rfl
  · cases h

/-- **The step lemma.** -/
theorem Sound.step (hs : s.Sound fs₀) (h : step s a = some s') : s'.Sound fs₀ ∧ s.Effect a s' := by
  obtain ⟨ha, hp⟩ := perform_of_step h
  obtain ⟨t, ht, hout⟩ := hs.outcome ha
  rw [hp] at ht
  cases ht
  exact ⟨hs.of_outcome ha hout, hs.effect hout⟩

/-- The life of a blob of `len` bytes up to here, and from here on. -/
structure LifeCycle (fs₀ : FileSystem) (len : Int) (s : SharedBlob) : Prop where
  sound : s.Sound fs₀
  len_eq : s.blob.len = len
  performs : ∀ a, s.Allowed a → ∃ s', s.perform a = .ok s' ∧ s.Effect a s'
  writePast : ∀ data buf, s.writer = some data → len < data.currPos + buf.length →
    writeToBlobStream s.blob data buf s.fs = .ok (.failure, data, s.fs)
  readPast : ∀ r ∈ s.readers, ∀ n : Nat, len < r.data.currPos + n →
    readFromBlobStream s.blob r.data n s.fs = .ok (none, r.data, s.fs)
  unchanged : s.blob.state = .complete → ∀ as t, Run.exec step s as = some t →
    t.blob.state = .complete ∧ t.written = s.written ∧ (0 < t.blob.refCnt → t.fs.files t.blob.filePath = some s.written)

theorem Sound.unchanged (hs : s.Sound fs₀) (hstate : s.blob.state = .complete) {as : List Action} {t : SharedBlob}
    (hrun : Run.exec SharedBlob.step s as = some t) : t.blob.state = .complete ∧ t.written = s.written ∧
      (0 < t.blob.refCnt → t.fs.files t.blob.filePath = some s.written) := by
  have hkept := @Run.invariant _ _ SharedBlob.step
    (fun t => t.Sound fs₀ ∧ t.blob.state = .complete ∧ t.written = s.written) (fun _ _ => True)
    (fun u b u' hu _ hb => by
      obtain ⟨hsound, hcomplete, hwritten⟩ := hu
      obtain ⟨hsound', heff⟩ := hsound.step hb
      obtain ⟨hcomplete', hwritten'⟩ := heff.keeps hcomplete
      exact ⟨hsound', hcomplete', hwritten'.trans hwritten⟩)
    as s t ⟨hs, hstate, rfl⟩ (Run.meets_true s as) hrun
  obtain ⟨hsound, hcomplete, hwritten⟩ := hkept
  refine ⟨hcomplete, hwritten, fun hpos => ?_⟩
  rw [← hwritten]
  exact hsound.file hpos (by simp [hcomplete])

theorem Sound.lifeCycle (hs : s.Sound fs₀) : s.LifeCycle fs₀ s.blob.len where
  sound := hs
  len_eq := rfl
  performs a ha := by
    obtain ⟨s', hp, hout⟩ := hs.outcome ha
    exact ⟨s', hp, hs.effect hout⟩
  writePast data buf hw hpast := by
    have hsome : s.writer.isSome := by rw [hw]; rfl
    obtain ⟨-, hstate, -⟩ := hs.of_writer hsome
    have hroom := hs.room
    rw [hs.writer data hw] at hpast ⊢
    exact writeToBlobStream_past hstate rfl (Int.natCast_nonneg _) hroom hpast
  readPast r hr n hpast := by
    obtain ⟨hstate, hdata, hgot⟩ := hs.readers r hr
    have hfull := hs.complete hstate
    have hle := hgot.length_le
    rw [hdata] at hpast ⊢
    exact readFromBlobStream_past hstate (by omega) hpast
  unchanged hstate _ _ hrun := hs.unchanged hstate hrun

/-- **The life cycle of a blob**: from its creation, through any run of its owners and its streams, and whatever file
operations fail. -/
theorem lifeCycle_of_exec (filePath : String) {len : Int} (hlen : 0 ≤ len) (fs₀ : FileSystem) :
    ∃ s₀, create filePath len fs₀ = .ok s₀ ∧
      ∀ as s, Run.exec step s₀ as = some s → s.LifeCycle fs₀ len := by
  obtain ⟨s₀, hcreate, hs₀, hlen₀⟩ := sound_create filePath hlen fs₀
  refine ⟨s₀, hcreate, fun as s hrun => ?_⟩
  have hkept := @Run.invariant _ _ step (fun t => t.Sound fs₀ ∧ t.blob.len = len) (fun _ _ => True)
    (fun u b u' hu _ hb => by
      obtain ⟨hsound, hlenu⟩ := hu
      obtain ⟨hsound', heff⟩ := hsound.step hb
      exact ⟨hsound', heff.len_eq.trans hlenu⟩)
    as s₀ s ⟨hs₀, hlen₀⟩ (Run.meets_true s₀ as) hrun
  rw [← hkept.2]
  exact hkept.1.lifeCycle

/-- Two bytes are written, flushed and read after the owner let go; the reader takes the file with it. -/
theorem lifeCycle_of_exec_twoBytes : ∃ s₀ s,
    create "/tmp/mrpc_blob.1" 2 ⟨fun _ => none, fun _ => .success, []⟩ = .ok s₀ ∧
    Run.exec step s₀ [.openWrite, .write [7, 8], .flush, .deleteWriter, .openRead, .decRef, .read 0 2, .deleteReader 0]
      = some s ∧
    s.blob.refCnt = 0 ∧ s.blob.state = .complete ∧ s.LifeCycle ⟨fun _ => none, fun _ => .success, []⟩ 2 := by
  obtain ⟨s₀, hcreate, hlife⟩ := lifeCycle_of_exec "/tmp/mrpc_blob.1" (show (0 : Int) ≤ 2 by decide)
    ⟨fun _ => none, fun _ => .success, []⟩
  cases hcreate
  refine ⟨_, _, rfl, rfl, rfl, rfl, ?_⟩
  exact hlife [.openWrite, .write [7, 8], .flush, .deleteWriter, .openRead, .decRef, .read 0 2, .deleteReader 0] _ rfl

end SharedBlob
end Mrpc
