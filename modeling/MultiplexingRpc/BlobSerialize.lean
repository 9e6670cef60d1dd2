import MultiplexingRpc.Blob
import MultiplexingRpc.IntSerialize
/-!
# BlobSerialize — blobs on the wire (`mrpc_blob.c`)

A complete blob goes out as its length and the bytes of its file, read back through a stream opened for reading.  As
long as the files work, what `mrpc_blob_unserialize` makes of these bytes is a complete blob of its own, in a file of
its own, with the same bytes.
-/
namespace Mrpc

/-! ## Reading a blob -/

/-- `read_from_blob_stream`: the bytes read. -/
def readFromBlobStream (blob : Blob) (data : BlobStreamData) (len : Nat) (fs : FileSystem) :
    Except Fault (Option (List UInt8) × BlobStreamData × FileSystem) := do
  ffAssert (data.mode = .read)
  ffAssert (blob.state = .complete)
  ffAssert (0 ≤ data.currPos)
  ffAssert (data.currPos ≤ blob.len)
  let bytesLeft := blob.len - data.currPos
  if (len : Int) ≤ bytesLeft then
    match fs.read data.file len with
    | (some buf, file, fs) => .ok (some buf, { data with file := file, currPos := data.currPos + len }, fs)
    | (none, file, fs) => .ok (none, { data with file := file }, fs)
  else .ok (none, data, fs)

/-- `ff_stream_copy` from a blob stream: each part is read and written, until one fails. -/
def ffStreamCopyOut (blob : Blob) : List Nat → BlobStreamData → OutStream → FileSystem →
    Except Fault (FfResult × BlobStreamData × OutStream × FileSystem)
  | [], data, stream, fs => .ok (.success, data, stream, fs)
  | n :: ns, data, stream, fs => do
    match ← readFromBlobStream blob data n fs with
    | (none, data, fs) => .ok (.failure, data, stream, fs)
    | (some buf, data, fs) =>
      match ffStreamWrite stream buf with
      | (.failure, stream) => .ok (.failure, data, stream, fs)
      | (.success, stream) => ffStreamCopyOut blob ns data stream fs

/-- `mrpc_blob_get_len`. -/
def blobGetLen (blob : Blob) : Except Fault Int := do
  ffAssert (0 < blob.refCnt)
  ffAssert (0 ≤ blob.len)
  .ok blob.len

/-- `mrpc_blob_serialize`. -/
def blobSerialize (copy : CopyPlan) (blob : Blob) (stream : OutStream) (fs : FileSystem) :
    Except Fault (FfResult × Blob × OutStream × FileSystem) := do
  match ← blobOpenStream blob .read fs with
  | (none, blob, fs) => .ok (.failure, blob, stream, fs)
  | (some data, blob, fs) =>
    let len ← blobGetLen blob
    ffAssert (0 ≤ len)
    match ← uint32Serialize (Int32.ofInt len).toUInt32 stream with
    | (.failure, stream) =>
      let (blob, fs) ← deleteBlobStream blob fs
      .ok (.failure, blob, stream, fs)
    | (.success, stream) =>
      let (result, _, stream, fs) ← ffStreamCopyOut blob (copy.sizes len.toNat) data stream fs
      let (blob, fs) ← deleteBlobStream blob fs
      .ok (result, blob, stream, fs)

/-! ## Files that work -/

/-- No file operation fails. -/
def FileSystem.Reliable (fs : FileSystem) : Prop := ∀ n, fs.outcomes n = .success

/-- What `fs'` shares with `fs`: how operations end, and every file but the one at `path`. -/
structure FileSystem.SameBut (fs fs' : FileSystem) (path : String) : Prop where
  outcomes : fs'.outcomes = fs.outcomes
  files : ∀ p, p ≠ path → fs'.files p = fs.files p

/-- The blob is complete, and `bytes` are its contents. -/
structure Holds (fs : FileSystem) (blob : Blob) (bytes : List UInt8) : Prop where
  state : blob.state = .complete
  refCnt : 0 < blob.refCnt
  len : blob.len = bytes.length
  len_le : bytes.length ≤ 2 ^ 31 - 1
  file : fs.files blob.filePath = some bytes

namespace FileSystem.Reliable

variable {fs : FileSystem}

theorem outcome (h : fs.Reliable) : fs.outcome = .success := h _

theorem openRead (h : fs.Reliable) {path : String} {bytes : List UInt8} (hf : fs.files path = some bytes) :
    ∃ fs', fs.openRead path = (some ⟨path, 0⟩, fs') ∧ fs'.files = fs.files ∧ fs'.outcomes = fs.outcomes := by
  unfold FileSystem.openRead
  rw [hf, h.outcome]
  exact ⟨_, rfl, rfl, rfl⟩

theorem read (h : fs.Reliable) (file : FfFile) (len : Nat) {bytes : List UInt8} (hf : fs.files file.path = some bytes)
    (hlen : file.pos + len ≤ bytes.length) :
    ∃ fs', fs.read file len = (some ((bytes.drop file.pos).take len), { file with pos := file.pos + len }, fs') ∧
      fs'.files = fs.files ∧ fs'.outcomes = fs.outcomes := by
  unfold FileSystem.read
  rw [hf, h.outcome]
  dsimp only
  rw [if_pos hlen]
  exact ⟨_, rfl, rfl, rfl⟩

end FileSystem.Reliable

/-- **A read inside the blob** is the file's read. -/
theorem readFromBlobStream_eq {blob : Blob} {file : FfFile} {pos len : Nat} {fs : FileSystem}
    (hstate : blob.state = .complete) (hroom : (pos + len : Int) ≤ blob.len) :
    readFromBlobStream blob ⟨file, .read, pos⟩ len fs = match fs.read file len with
      | (some buf, file, fs) => .ok (some buf, ⟨file, .read, pos + len⟩, fs)
      | (none, file, fs) => .ok (none, ⟨file, .read, pos⟩, fs) := by
  unfold readFromBlobStream
  rw [ffAssert_of rfl, ffAssert_of hstate, ffAssert_of (by dsimp only; omega), ffAssert_of (by dsimp only; omega),
    ok_bind, ok_bind, ok_bind, ok_bind]
  dsimp only
  rw [if_pos (by omega)]

/-- **The copy out of a blob writes the rest of its file**, whatever the parts. -/
theorem ffStreamCopyOut_spec {blob : Blob} {bytes : List UInt8} :
    ∀ (ns : List Nat) {fs : FileSystem} {stream : OutStream} (pos : Nat), fs.Reliable → Holds fs blob bytes →
      stream.Lossless → pos + ns.sum ≤ bytes.length →
      ∃ data stream' fs', ffStreamCopyOut blob ns ⟨⟨blob.filePath, pos⟩, .read, pos⟩ stream fs
          = .ok (.success, data, stream', fs') ∧
        stream.Wrote ((bytes.drop pos).take ns.sum) stream' ∧ fs'.files = fs.files ∧ fs'.outcomes = fs.outcomes
  | [], fs, stream, pos, _, _, hs, _ => by
    refine ⟨_, stream, fs, rfl, ?_, rfl, rfl⟩
    rw [List.sum_nil, List.take_zero]
    exact OutStream.Wrote.nil hs
  | n :: ns, fs, stream, pos, hfs, hb, hs, hsum => by
    rw [List.sum_cons] at hsum
    obtain ⟨fs₁, hread, hfiles₁, hout₁⟩ :=
      hfs.read ⟨blob.filePath, pos⟩ n hb.file (by dsimp only; omega)
    obtain ⟨s₁, hw₁, hwrote₁⟩ := ffStreamWrite_lossless hs ((bytes.drop pos).take n)
    have hb₁ : Holds fs₁ blob bytes := ⟨hb.state, hb.refCnt, hb.len, hb.len_le, by rw [hfiles₁]; exact hb.file⟩
    have hfs₁ : fs₁.Reliable := fun k => by rw [hout₁]; exact hfs k
    obtain ⟨data, s₂, fs₂, hrun, hwrote₂, hfiles₂, hout₂⟩ :=
      ffStreamCopyOut_spec ns (pos + n) hfs₁ hb₁ hwrote₁.lossless (by omega)
    refine ⟨data, s₂, fs₂, ?_, ?_, hfiles₂.trans hfiles₁, hout₂.trans hout₁⟩
    · have hlen := hb.len
      unfold ffStreamCopyOut
      rw [readFromBlobStream_eq hb.state (by omega), hread, ok_bind]
      dsimp only
      rw [hw₁, ← Nat.cast_add]
      exact hrun
    · have h := hwrote₁.append hwrote₂
      rwa [← List.drop_drop, ← List.take_add, ← List.sum_cons] at h

/-- **A complete blob goes out as its length and its bytes**, and nothing of it changes. -/
theorem blobSerialize_spec (copy : CopyPlan) {blob : Blob} {bytes : List UInt8} {fs : FileSystem} {stream : OutStream}
    (hfs : fs.Reliable) (hb : Holds fs blob bytes) (hs : stream.Lossless) :
    ∃ octets stream' fs', blobSerialize copy blob stream fs = .ok (.success, blob, stream', fs') ∧
      stream.Wrote (octets ++ bytes) stream' ∧ fs'.files = fs.files ∧ fs'.outcomes = fs.outcomes ∧
      ∀ data trailing, uint32Unserialize data (octets ++ trailing) = ⟨.success, UInt32.ofNat bytes.length, trailing⟩ := by
  have hlen := hb.len
  have hle := hb.len_le
  obtain ⟨fs₁, hopen, hfiles₁, hout₁⟩ := hfs.openRead hb.file
  obtain ⟨octets, s₁, hw₁, hwrote₁, hread⟩ := uint32_roundTrips (UInt32.ofNat bytes.length) stream hs
  have hword : (Int32.ofInt blob.len).toUInt32 = UInt32.ofNat bytes.length := by
    rw [hlen]
    apply UInt32.toNat_inj.1
    rw [UInt32.toNat_ofNat']
    show (BitVec.ofInt 32 bytes.length).toNat = _
    rw [BitVec.ofInt_natCast, BitVec.toNat_ofNat]
  -- the stream's own reference is there while the copy runs
  have hb₁ : Holds fs₁ { blob with refCnt := blob.refCnt + 1 } bytes :=
    ⟨hb.state, Nat.succ_pos _, hb.len, hle, by rw [hfiles₁]; exact hb.file⟩
  have hfs₁ : fs₁.Reliable := fun k => by rw [hout₁]; exact hfs k
  obtain ⟨data, s₂, fs₂, hcopy, hwrote₂, hfiles₂, hout₂⟩ :=
    ffStreamCopyOut_spec (copy.sizes bytes.length) 0 hfs₁ hb₁ hwrote₁.lossless (by rw [copy.sum_sizes]; omega)
  rw [copy.sum_sizes, List.drop_zero, List.take_length] at hwrote₂
  refine ⟨octets, s₂, fs₂, ?_, hwrote₁.append hwrote₂, hfiles₂.trans hfiles₁, hout₂.trans hout₁, hread⟩
  have hnat : blob.len.toNat = bytes.length := by omega
  have href := hb.refCnt
  unfold blobSerialize blobOpenStream blobIncRef blobGetLen deleteBlobStream blobDecRef
  simp only [ffAssert_of href, ffAssert_of hb.state, ffAssert_of (show 1 < blob.refCnt + 1 by omega), ok_bind, hopen,
    ffAssert_of (Nat.succ_pos blob.refCnt), ffAssert_of (show 0 ≤ blob.len by omega), hword, hw₁, hnat]
  rw [show (0 : Int) = ((0 : Nat) : Int) from rfl, hcopy, ok_bind]
  simp only [Nat.add_sub_cancel, if_neg (show ¬ blob.refCnt = 0 by omega)]
  rfl

/-- **The copy into a blob, when nothing fails**: the file at its path grows by the bytes asked for, no other changes. -/
theorem ffStreamCopy_reliable {blob : Blob} (hstate : blob.state ≠ .empty) :
    ∀ (ns : List Nat) (s : CopyState) (written : List UInt8), s.fs.Reliable → s.data.mode = .write →
      s.data.currPos = written.length → s.fs.files s.data.file.path = some written →
      (written.length + ns.sum : Int) = blob.len → ns.sum ≤ s.stream.length →
      ∃ s', ffStreamCopy blob ns s = .ok (.success, s') ∧ s'.stream = s.stream.drop ns.sum ∧
        s'.data.file = s.data.file ∧ s'.data.mode = .write ∧ s'.data.currPos = blob.len ∧
        s'.fs.files s.data.file.path = some (written ++ s.stream.take ns.sum) ∧
        s.fs.SameBut s'.fs s.data.file.path
  | [], s, written, _, hmode, hpos, hfile, hlen, _ => by
    simp only [List.sum_nil, Nat.cast_zero, add_zero] at hlen
    refine ⟨s, rfl, rfl, rfl, hmode, hpos.trans hlen, ?_, ⟨rfl, fun _ _ => rfl⟩⟩
    rw [List.sum_nil, List.take_zero, List.append_nil]
    exact hfile
  | n :: ns, s, written, hfs, hmode, hpos, hfile, hlen, hle => by
    rw [List.sum_cons, Nat.cast_add] at hlen
    rw [List.sum_cons] at hle
    have htake : (s.stream.take n).length = n := List.length_take_of_le (by omega)
    unfold ffStreamCopy
    rw [if_neg (by omega), writeToBlobStream_eq hstate hmode (by omega) (by rw [htake]; omega)]
    unfold FileSystem.write
    rw [hfs.outcome, hfile]
    dsimp only
    rw [ok_bind]
    obtain ⟨s', hrun, hstream, hsame, hmode', hend, hcontents, hframe⟩ :=
      ffStreamCopy_reliable hstate ns
        ⟨s.stream.drop n, { s.data with currPos := s.data.currPos + (s.stream.take n).length },
          { s.fs.record (.write s.data.file.path (s.stream.take n).length) .success with
            files := Function.update s.fs.files s.data.file.path (some (written ++ s.stream.take n)) }⟩
        (written ++ s.stream.take n) hfs hmode (by simp [hpos]) (Function.update_self ..)
        (by rw [List.length_append, htake]; omega) (by dsimp only; rw [List.length_drop]; omega)
    refine ⟨s', hrun, ?_, hsame, hmode', hend, ?_, hframe.outcomes, fun p hp => ?_⟩
    · rw [hstream, List.sum_cons]
      dsimp only
      rw [List.drop_drop]
    · rw [List.sum_cons, List.take_add, ← List.append_assoc]
      exact hcontents
    · rw [hframe.files p hp]
      exact Function.update_of_ne hp _ _

/-- **The bytes of a blob become a new one**: complete, with one reference, in the file given to it. -/
theorem blobUnserialize_spec (copy : CopyPlan) {filePath : String} {octets bytes trailing : List UInt8} {fs : FileSystem}
    (hfs : fs.Reliable) (hle : bytes.length ≤ 2 ^ 31 - 1)
    (hoctets : ∀ data rest, uint32Unserialize data (octets ++ rest) = ⟨.success, UInt32.ofNat bytes.length, rest⟩) :
    ∃ blob fs', blobUnserialize copy filePath (octets ++ bytes ++ trailing) fs
        = .ok ⟨.success, some blob, some blob, trailing, fs'⟩ ∧
      Holds fs' blob bytes ∧ blob.refCnt = 1 ∧ blob.filePath = filePath ∧ fs.SameBut fs' filePath := by
  have hnat : (UInt32.ofNat bytes.length).toNat = bytes.length := by
    rw [UInt32.toNat_ofNat']
    exact Nat.mod_eq_of_lt (by omega)
  have hint : (UInt32.ofNat bytes.length).toInt32.toInt = bytes.length := by
    rw [toInt32_of_lt (by omega), hnat]
  have hopen : fs.openWrite filePath = (some ⟨filePath, 0⟩, { fs.record (.openWrite filePath) .success with
      files := Function.update fs.files filePath (some []) }) := by
    unfold FileSystem.openWrite
    rw [hfs.outcome]
  obtain ⟨s, hcopy, hstream, hfile, hmode, hend, hcontents, hframe⟩ :=
    @ffStreamCopy_reliable ⟨filePath, bytes.length, .incomplete, 2⟩ (by simp) (copy.sizes bytes.length)
      ⟨bytes ++ trailing, ⟨⟨filePath, 0⟩, .write, 0⟩, { fs.record (.openWrite filePath) .success with
        files := Function.update fs.files filePath (some []) }⟩ [] hfs rfl rfl (Function.update_self ..)
      (by simp [copy.sum_sizes]) (by simp [copy.sum_sizes])
  simp only [copy.sum_sizes, List.drop_left, List.take_left, List.nil_append] at hstream hcontents
  have hout : s.fs.outcome = .success := by
    rw [FileSystem.outcome, hframe.outcomes]
    exact hfs _
  obtain ⟨stream, data, fs'⟩ := s
  dsimp only at hstream hfile hmode hend hcontents hframe hout
  subst hstream
  refine ⟨⟨filePath, bytes.length, .complete, 1⟩, fs'.record (.flush filePath) .success, ?_,
    ⟨rfl, Nat.one_pos, rfl, hle, hcontents⟩, rfl, rfl, hframe.outcomes, fun p hp => ?_⟩
  · unfold blobUnserialize
    rw [List.append_assoc, hoctets]
    dsimp only
    rw [hint, if_neg (by omega), blobCreate, ffAssert_of (by omega), ok_bind, ok_bind, Int.toNat_natCast]
    simp only [blobOpenStream, blobIncRef, ffAssert, ok_bind, Nat.lt_add_one, if_true, hopen, hcopy, flushBlobStream,
      hmode, FileSystem.flush, hout, hend, hfile]
    rfl
  · have h := hframe.files p hp
    dsimp only at h
    rwa [Function.update_of_ne hp] at h

end Mrpc
