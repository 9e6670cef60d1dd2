import MultiplexingRpc.Int
/-!
# Blob — values kept in files (`mrpc_blob.c`)

A blob is a byte string of a length fixed at creation, kept in a temporary file.  It is filled once through a stream
opened for writing; flushing that stream after the last byte makes the blob complete.  The blob is counted: its owner
and every open stream hold a reference, and the last one to go erases the file.

The files belong to the fiber framework.  Every file operation may fail, as `outcomes` says for the `n`-th of them, and
a failing one has no effect; `history` records what was asked for and what came of it.
-/
namespace Mrpc

/-! ## Files -/

/-- A file operation that was asked for. -/
inductive FileOp where
  | openRead (path : String)
  | openWrite (path : String)
  | read (path : String) (len : Nat)
  | write (path : String) (len : Nat)
  | flush (path : String)
  | erase (path : String)
  | move (path newPath : String)
  deriving DecidableEq, Repr

structure FileSystem where
  files : String → Option (List UInt8)
  outcomes : Nat → FfResult
  history : List (FileOp × FfResult)

/-- An open `struct ff_file`. -/
structure FfFile where
  path : String
  pos : Nat
  deriving DecidableEq, Repr

namespace FileSystem

/-- What comes of the next operation. -/
def outcome (fs : FileSystem) : FfResult := fs.outcomes fs.history.length

def record (fs : FileSystem) (op : FileOp) (result : FfResult) : FileSystem :=
  { fs with history := fs.history ++ [(op, result)] }

/-- `ff_file_open(path, FF_FILE_READ)`. -/
def openRead (fs : FileSystem) (path : String) : Option FfFile × FileSystem :=
  match fs.files path, fs.outcome with
  | some _, .success => (some ⟨path, 0⟩, fs.record (.openRead path) .success)
  | _, _ => (none, fs.record (.openRead path) .failure)

/-- `ff_file_open(path, FF_FILE_WRITE)`: an empty file. -/
def openWrite (fs : FileSystem) (path : String) : Option FfFile × FileSystem :=
  match fs.outcome with
  | .success =>
    (some ⟨path, 0⟩, { fs.record (.openWrite path) .success with files := Function.update fs.files path (some []) })
  | .failure => (none, fs.record (.openWrite path) .failure)

/-- `ff_file_read`: the next `len` bytes of the file, or nothing. -/
def read (fs : FileSystem) (file : FfFile) (len : Nat) : Option (List UInt8) × FfFile × FileSystem :=
  match fs.files file.path, fs.outcome with
  | some contents, .success =>
    if file.pos + len ≤ contents.length then
      (some ((contents.drop file.pos).take len), { file with pos := file.pos + len },
        fs.record (.read file.path len) .success)
    else (none, file, fs.record (.read file.path len) .failure)
  | _, _ => (none, file, fs.record (.read file.path len) .failure)

/-- `ff_file_write`: all of `buf` at the end of the file, or nothing. -/
def write (fs : FileSystem) (file : FfFile) (buf : List UInt8) : FfResult × FileSystem :=
  match fs.outcome with
  | .success =>
    (.success, { fs.record (.write file.path buf.length) .success with
      files := Function.update fs.files file.path ((fs.files file.path).map (· ++ buf)) })
  | .failure => (.failure, fs.record (.write file.path buf.length) .failure)

/-- `ff_file_flush`. -/
def flush (fs : FileSystem) (file : FfFile) : FfResult × FileSystem :=
  (fs.outcome, fs.record (.flush file.path) fs.outcome)

/-- `ff_file_erase`. -/
def erase (fs : FileSystem) (path : String) : FfResult × FileSystem :=
  match fs.outcome with
  | .success => (.success, { fs.record (.erase path) .success with files := Function.update fs.files path none })
  | .failure => (.failure, fs.record (.erase path) .failure)

/-- `ff_file_move`: whatever was at the new path is gone. -/
def move (fs : FileSystem) (path newPath : String) : FfResult × FileSystem :=
  match fs.files path, fs.outcome with
  | some contents, .success =>
    (.success, { fs.record (.move path newPath) .success with
      files := Function.update (Function.update fs.files path none) newPath (some contents) })
  | _, _ => (.failure, fs.record (.move path newPath) .failure)

end FileSystem

/-! ## Blobs and their streams -/

/-- `enum blob_state`. -/
inductive BlobState where
  | empty
  | incomplete
  | complete
  deriving DecidableEq, Repr

/-- `enum mrpc_blob_open_stream_mode`. -/
inductive BlobOpenStreamMode where
  | read
  | write
  deriving DecidableEq, Repr

/-- `struct mrpc_blob`.  The values of a C `int` are kept as integers: `len` and every position stay between `0` and
`2^31 - 1`.  A blob with `refCnt = 0` is freed. -/
structure Blob where
  filePath : String
  len : Int
  state : BlobState
  refCnt : Nat
  deriving DecidableEq, Repr

/-- `struct blob_stream_data`, less the pointer to the blob. -/
structure BlobStreamData where
  file : FfFile
  mode : BlobOpenStreamMode
  currPos : Int
  deriving DecidableEq, Repr

/-- `mrpc_blob_create`; `filePath` is what `create_temporary_file_path` returns. -/
def blobCreate (filePath : String) (len : Int) : Except Fault Blob := do
  ffAssert (0 ≤ len)
  .ok ⟨filePath, len, .empty, 1⟩

/-- `delete_blob`: a failure to erase the file is only logged. -/
def deleteBlob (blob : Blob) (fs : FileSystem) : Except Fault FileSystem := do
  ffAssert (blob.refCnt = 0)
  if blob.state ≠ .empty then .ok (fs.erase blob.filePath).2 else .ok fs

/-- `mrpc_blob_inc_ref`. -/
def blobIncRef (blob : Blob) : Except Fault Blob := do
  ffAssert (1 < blob.refCnt + 1)
  .ok { blob with refCnt := blob.refCnt + 1 }

/-- `mrpc_blob_dec_ref`. -/
def blobDecRef (blob : Blob) (fs : FileSystem) : Except Fault (Blob × FileSystem) := do
  ffAssert (0 < blob.refCnt)
  let blob := { blob with refCnt := blob.refCnt - 1 }
  if blob.refCnt = 0 then
    let fs ← deleteBlob blob fs
    .ok (blob, fs)
  else .ok (blob, fs)

/-- `mrpc_blob_open_stream`. -/
def blobOpenStream (blob : Blob) (mode : BlobOpenStreamMode) (fs : FileSystem) :
    Except Fault (Option BlobStreamData × Blob × FileSystem) := do
  ffAssert (0 < blob.refCnt)
  match mode with
  | .read =>
    ffAssert (blob.state = .complete)
    let blob ← blobIncRef blob
    match fs.openRead blob.filePath with
    | (none, fs) =>
      let (blob, fs) ← blobDecRef blob fs
      .ok (none, blob, fs)
    | (some file, fs) => .ok (some ⟨file, .read, 0⟩, blob, fs)
  | .write =>
    ffAssert (blob.refCnt = 1)
    ffAssert (blob.state = .empty)
    let blob ← blobIncRef blob
    match fs.openWrite blob.filePath with
    | (none, fs) =>
      let (blob, fs) ← blobDecRef blob fs
      .ok (none, blob, fs)
    | (some file, fs) => .ok (some ⟨file, .write, 0⟩, { blob with state := .incomplete }, fs)

/-- `delete_blob_stream`. -/
def deleteBlobStream (blob : Blob) (fs : FileSystem) : Except Fault (Blob × FileSystem) := blobDecRef blob fs

/-- `write_to_blob_stream`.  The assertion on the mode is spelled with `=`, so it sets the mode. -/
def writeToBlobStream (blob : Blob) (data : BlobStreamData) (buf : List UInt8) (fs : FileSystem) :
    Except Fault (FfResult × BlobStreamData × FileSystem) := do
  let data := { data with mode := .write }
  ffAssert (blob.state ≠ .empty)
  ffAssert (0 ≤ data.currPos)
  ffAssert (data.currPos ≤ blob.len)
  let bytesLeft := blob.len - data.currPos
  if (buf.length : Int) ≤ bytesLeft then
    match fs.write data.file buf with
    | (.success, fs) => .ok (.success, { data with currPos := data.currPos + buf.length }, fs)
    | (.failure, fs) => .ok (.failure, data, fs)
  else .ok (.failure, data, fs)

/-- `flush_blob_stream`. -/
def flushBlobStream (blob : Blob) (data : BlobStreamData) (fs : FileSystem) :
    Except Fault (FfResult × Blob × FileSystem) := do
  ffAssert (data.mode = .write)
  ffAssert (blob.state ≠ .empty)
  match fs.flush data.file with
  | (.success, fs) =>
    if data.currPos = blob.len then .ok (.success, { blob with state := .complete }, fs)
    else .ok (.success, blob, fs)
  | (.failure, fs) => .ok (.failure, blob, fs)

/-- `mrpc_blob_move`. -/
def blobMove (blob : Blob) (newFilePath : String) (fs : FileSystem) : Except Fault (FfResult × Blob × FileSystem) := do
  ffAssert (blob.state = .complete)
  ffAssert (blob.refCnt = 1)
  let blob ← blobIncRef blob
  match fs.move blob.filePath newFilePath with
  | (.success, fs) =>
    let (blob, fs) ← blobDecRef { blob with filePath := newFilePath } fs
    .ok (.success, blob, fs)
  | (.failure, fs) =>
    let (blob, fs) ← blobDecRef blob fs
    .ok (.failure, blob, fs)

/-! ## Decoding -/

/-- How `ff_stream_copy` cuts the bytes it copies: any sizes that add up to what was asked for. -/
structure CopyPlan where
  sizes : Nat → List Nat
  sum_sizes : ∀ len, (sizes len).sum = len

/-- What `ff_stream_copy(stream, blob_stream, len)` works on. -/
structure CopyState where
  stream : List UInt8
  data : BlobStreamData
  fs : FileSystem

/-- `ff_stream_copy` into a blob stream: each part is read whole from `stream` and written, until one fails. -/
def ffStreamCopy (blob : Blob) : List Nat → CopyState → Except Fault (FfResult × CopyState)
  | [], s => .ok (.success, s)
  | n :: ns, s =>
    if s.stream.length < n then .ok (.failure, { s with stream := [] })
    else do
      match ← writeToBlobStream blob s.data (s.stream.take n) s.fs with
      | (.success, data, fs) => ffStreamCopy blob ns ⟨s.stream.drop n, data, fs⟩
      | (.failure, data, fs) => .ok (.failure, ⟨s.stream.drop n, data, fs⟩)

/-- What a call of `mrpc_blob_unserialize` leaves behind: its result, what it set `*blob` to (`none`: nothing), the
blob it made on the way, the rest of the stream and the files. -/
structure BlobUnserialized where
  result : FfResult
  blob : Option Blob
  newBlob : Option Blob
  stream : List UInt8
  fs : FileSystem

/-- `mrpc_blob_unserialize`.  A length with the sign bit leaves by `goto end` with `result` as the length's decoding
set it. -/
def blobUnserialize (copy : CopyPlan) (filePath : String) (stream : List UInt8) (fs : FileSystem) :
    Except Fault BlobUnserialized :=
  match uint32Unserialize 0 stream with
  | ⟨.failure, _, stream⟩ => .ok ⟨.failure, none, none, stream, fs⟩
  | ⟨.success, uLen, stream⟩ =>
    let len := uLen.toInt32.toInt
    if len < 0 then .ok ⟨.success, none, none, stream, fs⟩
    else do
      let newBlob ← blobCreate filePath len
      match ← blobOpenStream newBlob .write fs with
      | (none, newBlob, fs) =>
        let (newBlob, fs) ← blobDecRef newBlob fs
        .ok ⟨.failure, none, some newBlob, stream, fs⟩
      | (some data, newBlob, fs) =>
        match ← ffStreamCopy newBlob (copy.sizes len.toNat) ⟨stream, data, fs⟩ with
        | (.failure, ⟨stream, _, fs⟩) =>
          let (newBlob, fs) ← deleteBlobStream newBlob fs
          let (newBlob, fs) ← blobDecRef newBlob fs
          .ok ⟨.failure, none, some newBlob, stream, fs⟩
        | (.success, ⟨stream, data, fs⟩) =>
          match ← flushBlobStream newBlob data fs with
          | (.failure, newBlob, fs) =>
            let (newBlob, fs) ← deleteBlobStream newBlob fs
            let (newBlob, fs) ← blobDecRef newBlob fs
            .ok ⟨.failure, none, some newBlob, stream, fs⟩
          | (.success, newBlob, fs) =>
            let (newBlob, fs) ← deleteBlobStream newBlob fs
            .ok ⟨.success, some newBlob, some newBlob, stream, fs⟩

/-! ## What the operations do -/

namespace FileSystem

/-- The operations performed since `fs`. -/
def performed (fs fs' : FileSystem) : List (FileOp × FfResult) := fs'.history.drop fs.history.length

theorem performed_of_append {fs fs' : FileSystem} {ops : List (FileOp × FfResult)}
    (h : fs'.history = fs.history ++ ops) : fs.performed fs' = ops := by
  rw [performed, h, List.drop_left]

theorem openWrite_cases (fs : FileSystem) (path : String) :
    (∃ fs', fs.openWrite path = (some ⟨path, 0⟩, fs') ∧ fs'.files path = some [] ∧
      fs'.history = fs.history ++ [(.openWrite path, .success)]) ∨
    (∃ fs', fs.openWrite path = (none, fs') ∧ fs'.files = fs.files ∧
      fs'.history = fs.history ++ [(.openWrite path, .failure)]) := by
  unfold openWrite
  cases fs.outcome with
  | success => exact Or.inl ⟨_, rfl, Function.update_self .., rfl⟩
  | failure => exact Or.inr ⟨_, rfl, rfl, rfl⟩

theorem write_cases (fs : FileSystem) (file : FfFile) (buf written : List UInt8)
    (h : fs.files file.path = some written) :
    (∃ fs', fs.write file buf = (.success, fs') ∧ fs'.files file.path = some (written ++ buf) ∧
      fs'.history = fs.history ++ [(.write file.path buf.length, .success)]) ∨
    (∃ fs', fs.write file buf = (.failure, fs') ∧
      fs'.history = fs.history ++ [(.write file.path buf.length, .failure)]) := by
  unfold write
  cases fs.outcome with
  | success => exact Or.inl ⟨_, rfl, by simp [h], rfl⟩
  | failure => exact Or.inr ⟨_, rfl, rfl⟩

theorem erase_spec (fs : FileSystem) (path : String) :
    (fs.erase path).2.history = fs.history ++ [(.erase path, fs.outcome)] ∧
      (fs.outcome = .success → (fs.erase path).2.files path = none) := by
  unfold erase
  cases fs.outcome with
  | success => exact ⟨rfl, fun _ => Function.update_self ..⟩
  | failure => exact ⟨rfl, fun h => by cases h⟩

end FileSystem

/-- **The write into a blob with room for it** is the file's write. -/
theorem writeToBlobStream_eq {blob : Blob} {data : BlobStreamData} {buf : List UInt8} {fs : FileSystem}
    (hstate : blob.state ≠ .empty) (hmode : data.mode = .write) (hpos : 0 ≤ data.currPos)
    (hroom : data.currPos + buf.length ≤ blob.len) :
    writeToBlobStream blob data buf fs = match fs.write data.file buf with
      | (.success, fs) => .ok (.success, { data with currPos := data.currPos + buf.length }, fs)
      | (.failure, fs) => .ok (.failure, data, fs) := by
  obtain ⟨file, mode, currPos⟩ := data
  cases hmode
  dsimp only at hpos hroom
  unfold writeToBlobStream
  dsimp only
  rw [ffAssert_of hstate, ffAssert_of hpos, ffAssert_of (by omega), ok_bind, ok_bind, ok_bind,
    if_pos (by omega)]

/-- What a copy of `total` bytes into a file with `written` in it leaves behind: all of them are appended and no others
consumed, or the stream is short or a write failed. -/
structure Copied (blob : Blob) (s : CopyState) (written : List UInt8) (total : Nat) (result : FfResult) (s' : CopyState)
    (ops : List (FileOp × FfResult)) : Prop where
  history : s'.fs.history = s.fs.history ++ ops
  file : s'.data.file = s.data.file
  mode : s'.data.mode = .write
  noErase : ∀ o ∈ ops, o.1 ≠ .erase s.data.file.path
  of_success : result = .success → total ≤ s.stream.length ∧ s'.stream = s.stream.drop total ∧
    s'.data.currPos = blob.len ∧ s'.fs.files s.data.file.path = some (written ++ s.stream.take total) ∧
    ∀ o ∈ ops, o.2 = .success
  of_failure : result = .failure → s.stream.length < total ∨ ∃ o ∈ ops, o.2 = .failure

/-- A part that was written, before the rest of the copy. -/
theorem Copied.cons {blob : Blob} {s s' : CopyState} {written : List UInt8} {n total : Nat} {result : FfResult}
    {ops : List (FileOp × FfResult)} {currPos : Int} {fs : FileSystem} {path : String} {len : Nat}
    (hn : n ≤ s.stream.length) (hhist : fs.history = s.fs.history ++ [(.write path len, .success)])
    (h : Copied blob ⟨s.stream.drop n, { s.data with currPos := currPos }, fs⟩ (written ++ s.stream.take n) total result
      s' ops) : Copied blob s written (n + total) result s' ((.write path len, .success) :: ops) where
  history := by
    rw [h.history, hhist, List.append_assoc]
    rfl
  file := h.file
  mode := h.mode
  noErase := List.forall_mem_cons.2 ⟨by simp, h.noErase⟩
  of_success hr := by
    obtain ⟨hle, hstream, hend, hcontents, hall⟩ := h.of_success hr
    dsimp only at hle hstream hcontents
    rw [List.length_drop] at hle
    refine ⟨by omega, ?_, hend, ?_, List.forall_mem_cons.2 ⟨rfl, hall⟩⟩
    · rw [hstream, List.drop_drop]
    · rw [hcontents, List.append_assoc, ← List.take_add]
  of_failure hr := by
    rcases h.of_failure hr with h | ⟨o, ho, hof⟩
    · dsimp only at h
      rw [List.length_drop] at h
      exact Or.inl (by omega)
    · exact Or.inr ⟨o, List.mem_cons_of_mem _ ho, hof⟩

/-- **The copy fills the file part by part**, entered with `written` already there. -/
theorem ffStreamCopy_spec {blob : Blob} (hstate : blob.state ≠ .empty) :
    ∀ (ns : List Nat) (s : CopyState) (written : List UInt8), s.data.mode = .write →
      s.data.currPos = written.length → s.fs.files s.data.file.path = some written →
      (written.length + ns.sum : Int) = blob.len →
      ∃ result s' ops, ffStreamCopy blob ns s = .ok (result, s') ∧ Copied blob s written ns.sum result s' ops
  | [], s, written, hmode, hpos, hfile, hlen => by
    simp only [List.sum_nil, Nat.cast_zero, add_zero] at hlen
    refine ⟨.success, s, [], rfl, (List.append_nil _).symm, rfl, hmode, by simp, fun _ => ?_, fun h => by cases h⟩
    refine ⟨Nat.zero_le _, rfl, hpos.trans hlen, ?_, by simp⟩
    rw [List.sum_nil, List.take_zero, List.append_nil]
    exact hfile
  | n :: ns, s, written, hmode, hpos, hfile, hlen => by
    rw [List.sum_cons, Nat.cast_add] at hlen
    unfold ffStreamCopy
    by_cases hshort : s.stream.length < n
    · -- the stream ends inside this part
      rw [if_pos hshort]
      refine ⟨.failure, _, [], rfl, (List.append_nil _).symm, rfl, hmode, by simp, (fun h => by cases h), fun _ => ?_⟩
      exact Or.inl (by rw [List.sum_cons]; omega)
    · rw [if_neg hshort]
      have htake : (s.stream.take n).length = n := List.length_take_of_le (by omega)
      rw [writeToBlobStream_eq hstate hmode (by omega) (by rw [htake]; omega)]
      rcases s.fs.write_cases s.data.file (s.stream.take n) written hfile with
        ⟨fs', hw, hfile', hhist⟩ | ⟨fs', hw, hhist⟩
      · rw [hw, ok_bind, List.sum_cons]
        obtain ⟨result, s', ops, hrun, hcopied⟩ := ffStreamCopy_spec hstate ns
          ⟨s.stream.drop n, { s.data with currPos := s.data.currPos + (s.stream.take n).length }, fs'⟩
          (written ++ s.stream.take n) hmode (by simp [hpos]) hfile' (by rw [List.length_append, htake]; omega)
        exact ⟨result, s', _, hrun, hcopied.cons (by omega) hhist⟩
      · rw [hw, ok_bind]
        refine ⟨.failure, _, [_], rfl, hhist, rfl, hmode, by simp, (fun h => by cases h), fun _ => ?_⟩
        exact Or.inr ⟨_, List.mem_singleton_self _, rfl⟩

/-! ## Exactness -/

/-- The length a stream starts with, and what follows it. -/
def lengthDecoded (stream : List UInt8) : Option (UInt32 × List UInt8) :=
  match uint32Unserialize 0 stream with
  | ⟨.success, uLen, rest⟩ => some (uLen, rest)
  | ⟨.failure, _, _⟩ => none

/-- What is left of the file at `path` once the blob `b` is gone: the file was never made, or `ff_file_erase` was the
last operation of all, asked for once; unless it failed the file is gone. -/
def BackingFileErased (fs fs' : FileSystem) (path : String) (b : Blob) : Prop :=
  (b.state = .empty ∧ fs'.files = fs.files) ∨
  ∃ before result, fs.performed fs' = before ++ [(.erase path, result)] ∧ (∀ o ∈ before, o.1 ≠ .erase path) ∧
    (result = .success → fs'.files path = none)

/-- **Exact blob decoding**: a success is a length below `2^31`, followed by enough bytes, with no file operation
failing; it sets `*blob` to the complete blob of these bytes and consumes nothing more.  A failure sets nothing and
leaves no blob behind. -/
structure ExactBlobDecoding (filePath : String) (stream : List UInt8) (fs : FileSystem) (r : BlobUnserialized) :
    Prop where
  success_iff : r.result = .success ↔ ∃ l rest, lengthDecoded stream = some (l, rest) ∧ l.toNat ≤ 2 ^ 31 - 1 ∧
    l.toNat ≤ rest.length ∧ ∀ o ∈ fs.performed r.fs, o.2 = .success
  of_success : r.result = .success → ∃ l rest, lengthDecoded stream = some (l, rest) ∧
    r.blob = some ⟨filePath, l.toNat, .complete, 1⟩ ∧ r.fs.files filePath = some (rest.take l.toNat) ∧
    (rest.take l.toNat).length = l.toNat ∧ r.stream = rest.drop l.toNat
  of_failure : r.result = .failure → r.blob = none ∧
    ∀ b, r.newBlob = some b → b.refCnt = 0 ∧ b.filePath = filePath ∧ BackingFileErased fs r.fs filePath b

/-- The call returns, and its outcome is exact. -/
def DecodesBlob (copy : CopyPlan) (filePath : String) (stream : List UInt8) (fs : FileSystem) : Prop :=
  ∃ r, blobUnserialize copy filePath stream fs = .ok r ∧ ExactBlobDecoding filePath stream fs r

/-- **A failure after the file was opened** is exact, once the two references are given back. -/
theorem exact_of_erased {filePath : String} {stream rest srest : List UInt8} {fs fs' : FileSystem} {l : UInt32} {b : Blob}
    {ops : List (FileOp × FfResult)} (hl : lengthDecoded stream = some (l, rest)) (hpath : b.filePath = filePath)
    (hhist : fs'.history = fs.history ++ ops) (hne : ∀ o ∈ ops, o.1 ≠ .erase filePath)
    (hwhy : rest.length < l.toNat ∨ ∃ o ∈ ops, o.2 = .failure) :
    ExactBlobDecoding filePath stream fs
      ⟨.failure, none, some { b with refCnt := 0 }, srest, (fs'.erase filePath).2⟩ := by
  obtain ⟨herase, hgone⟩ := fs'.erase_spec filePath
  have hperf : fs.performed (fs'.erase filePath).2 = ops ++ [(.erase filePath, fs'.outcome)] :=
    FileSystem.performed_of_append (by rw [herase, hhist, List.append_assoc])
  refine ⟨⟨(fun h => by cases h), ?_⟩, (fun h => by cases h), fun _ => ⟨rfl, ?_⟩⟩
  · rintro ⟨l', rest', hl', -, hlen, hall⟩
    rw [hl] at hl'
    cases hl'
    dsimp only at hall
    rw [hperf] at hall
    rcases hwhy with h | ⟨o, ho, hof⟩
    · omega
    · have := hall o (List.mem_append_left _ ho)
      rw [hof] at this
      cases this
  · rintro b' ⟨⟩
    exact ⟨rfl, hpath, Or.inr ⟨ops, _, hperf, hne, hgone⟩⟩

/-- **A failure to open the file** is exact, once the owner's reference is given back: nothing was made. -/
theorem exact_of_unopened {filePath : String} {stream srest : List UInt8} {fs fs' : FileSystem} {b : Blob}
    (hpath : b.filePath = filePath) (hstate : b.state = .empty) (hfiles : fs'.files = fs.files)
    (hhist : fs'.history = fs.history ++ [(.openWrite filePath, .failure)]) :
    ExactBlobDecoding filePath stream fs ⟨.failure, none, some { b with refCnt := 0 }, srest, fs'⟩ := by
  have hperf : fs.performed fs' = [(.openWrite filePath, .failure)] := FileSystem.performed_of_append hhist
  refine ⟨⟨(fun h => by cases h), ?_⟩, (fun h => by cases h), fun _ => ⟨rfl, ?_⟩⟩
  · rintro ⟨l, rest, -, -, -, hall⟩
    dsimp only at hall
    rw [hperf] at hall
    have := hall _ (List.mem_singleton_self _)
    cases this
  · rintro b' ⟨⟩
    exact ⟨rfl, hpath, Or.inl ⟨hstate, hfiles⟩⟩

/-- **A file that was filled and flushed** is the blob's, and the owner's reference is the one that is left. -/
theorem exact_of_flushed {filePath : String} {stream rest : List UInt8} {fs fs' : FileSystem} {l : UInt32}
    {ops : List (FileOp × FfResult)} (hl : lengthDecoded stream = some (l, rest)) (hlt : l.toNat < 2 ^ 31)
    (hle : l.toNat ≤ rest.length) (hcontents : fs'.files filePath = some (rest.take l.toNat))
    (hhist : fs'.history = fs.history ++ ops) (hall : ∀ o ∈ ops, o.2 = .success) :
    ExactBlobDecoding filePath stream fs ⟨.success, some ⟨filePath, l.toNat, .complete, 1⟩,
      some ⟨filePath, l.toNat, .complete, 1⟩, rest.drop l.toNat, fs'⟩ := by
  refine ⟨⟨fun _ => ⟨l, rest, hl, by omega, hle, ?_⟩, fun _ => rfl⟩, fun _ => ?_, fun h => by cases h⟩
  · rw [FileSystem.performed_of_append hhist]
    exact hall
  · exact ⟨l, rest, hl, rfl, hcontents, List.length_take_of_le hle, rfl⟩

theorem uint32Unserialize_of_lengthDecoded {stream rest : List UInt8} {l : UInt32}
    (hl : lengthDecoded stream = some (l, rest)) : uint32Unserialize 0 stream = ⟨.success, l, rest⟩ := by
  unfold lengthDecoded at hl
  split at hl
  · rename_i h
    cases hl
    exact h
  · cases hl

/-- **A length below `2^31` is decoded exactly**, whatever the files do. -/
theorem decodesBlob_of_lt (copy : CopyPlan) (filePath : String) (stream : List UInt8) (fs : FileSystem) {l : UInt32}
    {rest : List UInt8} (hl : lengthDecoded stream = some (l, rest)) (hlt : l.toNat < 2 ^ 31) :
    DecodesBlob copy filePath stream fs := by
  unfold DecodesBlob blobUnserialize
  rw [uint32Unserialize_of_lengthDecoded hl]
  dsimp only
  rw [toInt32_of_lt hlt, if_neg (by omega), blobCreate, ffAssert_of (by omega), ok_bind, ok_bind, Int.toNat_natCast]
  simp only [blobOpenStream, blobIncRef, ffAssert, ok_bind, Nat.lt_add_one, if_true]
  rcases fs.openWrite_cases filePath with ⟨fs₁, hopen, hempty, hhist₁⟩ | ⟨fs₁, hopen, hfiles, hhist₁⟩
  · -- the file is open: copy into it, then flush
    rw [hopen]
    obtain ⟨result, s, ops, hcopy, ⟨hhist, hfile, hmode, hne, hsucc, hfail⟩⟩ :=
      @ffStreamCopy_spec ⟨filePath, l.toNat, .incomplete, 2⟩ (by simp) (copy.sizes l.toNat)
        ⟨rest, ⟨⟨filePath, 0⟩, .write, 0⟩, fs₁⟩ [] rfl rfl hempty (by simp [copy.sum_sizes])
    simp only [copy.sum_sizes, List.nil_append] at hsucc hfail hne hfile
    simp only [ok_bind, hcopy]
    have hhist₂ : s.fs.history = fs.history ++ ((.openWrite filePath, .success) :: ops) := by
      rw [hhist, hhist₁, List.append_assoc]
      rfl
    have hne₂ : ∀ o ∈ ((.openWrite filePath, .success) :: ops : List (FileOp × FfResult)), o.1 ≠ .erase filePath :=
      List.forall_mem_cons.2 ⟨by simp, hne⟩
    cases result with
    | failure =>
      refine ⟨_, rfl, exact_of_erased (b := ⟨filePath, l.toNat, .incomplete, 0⟩) hl rfl hhist₂ hne₂ ?_⟩
      rcases hfail rfl with h | ⟨o, ho, hof⟩
      · exact Or.inl h
      · exact Or.inr ⟨o, List.mem_cons_of_mem _ ho, hof⟩
    | success =>
      obtain ⟨hle, hstream, hend, hcontents, hall⟩ := hsucc rfl
      have hhist₃ : ∀ result, (s.fs.record (.flush filePath) result).history
          = fs.history ++ ((.openWrite filePath, .success) :: ops ++ [(.flush filePath, result)]) := fun result => by
        rw [FileSystem.record, hhist₂, List.append_assoc]
      simp only [flushBlobStream, hmode, ffAssert, ok_bind, FileSystem.flush, hfile, hend, if_true]
      cases hout : s.fs.outcome with
      | failure =>
        refine ⟨_, rfl, exact_of_erased (b := ⟨filePath, l.toNat, .incomplete, 0⟩) hl rfl (hhist₃ .failure) ?_ ?_⟩
        · exact List.forall_mem_append.2 ⟨hne₂, by simp⟩
        · exact Or.inr ⟨_, List.mem_append_right _ (List.mem_singleton_self _), rfl⟩
      | success =>
        refine ⟨_, rfl, ?_⟩
        dsimp only
        rw [hstream]
        refine exact_of_flushed hl hlt hle hcontents (hhist₃ .success) ?_
        exact List.forall_mem_append.2 ⟨List.forall_mem_cons.2 ⟨rfl, hall⟩, by simp⟩
  · -- nothing was opened: the owner's reference is the only one left
    rw [hopen]
    simp only [blobDecRef, deleteBlob, ffAssert]
    exact ⟨_, rfl, exact_of_unopened (b := ⟨filePath, l.toNat, .empty, 0⟩) rfl rfl hfiles hhist₁⟩

/-- **A blob is decoded exactly as promised unless its length has the sign bit.** -/
theorem decodesBlob_iff (copy : CopyPlan) (filePath : String) (stream : List UInt8) (fs : FileSystem) :
    DecodesBlob copy filePath stream fs ↔
      ∀ l rest, lengthDecoded stream = some (l, rest) → l.toNat < 2 ^ 31 := by
  constructor
  · rintro ⟨r, hrun, hexact⟩ l rest hl
    by_contra hge
    -- the call leaves with the length's own success, and no blob
    have hsucc : r.result = .success := by
      unfold blobUnserialize at hrun
      unfold lengthDecoded at hl
      split at hl
      · rename_i uLen rest' hu
        cases hl
        rw [hu] at hrun
        dsimp only at hrun
        rw [if_pos ((toInt32_neg_iff l).2 (by omega))] at hrun
        cases hrun
        rfl
      · cases hl
    obtain ⟨l', rest', hl', hle, -, -⟩ := hexact.success_iff.1 hsucc
    rw [hl] at hl'
    cases hl'
    omega
  · intro h
    cases hl : lengthDecoded stream with
    | some lr => exact decodesBlob_of_lt copy filePath stream fs hl (h lr.1 lr.2 hl)
    | none =>
      -- no length: nothing is made
      have hfail : ∃ rest, blobUnserialize copy filePath stream fs = .ok ⟨.failure, none, none, rest, fs⟩ := by
        unfold lengthDecoded at hl
        unfold blobUnserialize
        split at hl
        · cases hl
        · rename_i uLen rest hu
          rw [hu]
          exact ⟨rest, rfl⟩
      obtain ⟨rest, hfail⟩ := hfail
      refine ⟨_, hfail, ⟨⟨(fun h => by cases h), ?_⟩, (fun h => by cases h), fun _ => ⟨rfl, fun b h => by cases h⟩⟩⟩
      rintro ⟨l, rest, hl', -⟩
      rw [hl] at hl'
      cases hl'

/-- The length `2^31` is answered with success and no blob. -/
theorem not_decodesBlob_two_pow_31 :
    ¬ DecodesBlob ⟨fun len => [len], fun _ => List.sum_singleton⟩ "/tmp/mrpc_blob.0" [0x80, 0x80, 0x80, 0x80, 0x08]
      ⟨fun _ => none, fun _ => .success, []⟩ := by
  rintro ⟨r, hrun, hexact⟩
  have hu : uint32Unserialize 0 [0x80, 0x80, 0x80, 0x80, 0x08] = ⟨.success, 0x80000000, []⟩ := by decide +kernel
  have hneg : (0x80000000 : UInt32).toInt32.toInt < 0 := by decide
  unfold blobUnserialize at hrun
  rw [hu] at hrun
  dsimp only at hrun
  rw [if_pos hneg] at hrun
  cases hrun
  obtain ⟨l, rest, -, hblob, -⟩ := hexact.of_success rfl
  cases hblob

end Mrpc
