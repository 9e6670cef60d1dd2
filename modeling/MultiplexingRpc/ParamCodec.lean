import MultiplexingRpc.Interface
import MultiplexingRpc.Arrays
import MultiplexingRpc.BlobSerialize
/-!
# ParamCodec — the seven parameter types on one stream

Generated code writes the parameters of a call one after the other, each with the codec of its type, and reads them back
in the same order.  Values of the pointer types live in memory with a reference count, and the contents of a blob in a
file, so a value that was read back is equal in what it says (`Content`), not in where it lies.
-/
namespace Mrpc

/-- A parameter as generated code holds it. -/
inductive ParamValue where
  | uint32 (v : UInt32)
  | int32 (v : Int32)
  | uint64 (v : UInt64)
  | int64 (v : Int64)
  | charArray (array : CharArray)
  | wcharArray (array : WcharArray)
  | blob (blob : Blob)

def ParamValue.type : ParamValue → ParamType
  | uint32 _ => .uint32
  | int32 _ => .int32
  | uint64 _ => .uint64
  | int64 _ => .int64
  | charArray _ => .charArray
  | wcharArray _ => .wcharArray
  | blob _ => .blob

/-- What a parameter says. -/
inductive Content where
  | uint32 (v : UInt32)
  | int32 (v : Int32)
  | uint64 (v : UInt64)
  | int64 (v : Int64)
  | charArray (value : List UInt8)
  | wcharArray (value : List UInt32)
  | blob (bytes : List UInt8)
  deriving DecidableEq, Repr

/-- The parameter is one its constructor admits, and says the content. -/
inductive Says (fs : FileSystem) : ParamValue → Content → Prop where
  | uint32 (v : UInt32) : Says fs (.uint32 v) (.uint32 v)
  | int32 (v : Int32) : Says fs (.int32 v) (.int32 v)
  | uint64 (v : UInt64) : Says fs (.uint64 v) (.uint64 v)
  | int64 (v : Int64) : Says fs (.int64 v) (.int64 v)
  | charArray {array : CharArray} (href : 0 < array.refCnt) (hlen : array.value.length ≤ maxCharArrayLength) :
    Says fs (.charArray array) (.charArray array.value)
  | wcharArray {array : WcharArray} (href : 0 < array.refCnt) (hlen : array.value.length ≤ maxWcharArrayLength)
    (hall : ∀ ch ∈ array.value, ch.toNat < 0x10000) : Says fs (.wcharArray array) (.wcharArray array.value)
  | blob {b : Blob} {bytes : List UInt8} (h : Holds fs b bytes) : Says fs (.blob b) (.blob bytes)

/-- There are finitely many files. -/
def FileSystem.Finite (fs : FileSystem) : Prop := {path | (fs.files path).isSome = true}.Finite

/-- `create_temporary_file_path`: some path that is not in use. -/
structure UniquePaths where
  path : FileSystem → String
  unused : ∀ fs : FileSystem, fs.Finite → fs.files (path fs) = none

/-- `mrpc_T_serialize`, for the type of the value: the result, the value, the stream and the files after it. -/
def paramSerialize (copy : CopyPlan) (v : ParamValue) (stream : OutStream) (fs : FileSystem) :
    Except Fault (FfResult × ParamValue × OutStream × FileSystem) :=
  match v with
  | .uint32 v => do
    let (result, stream) ← uint32Serialize v stream
    .ok (result, .uint32 v, stream, fs)
  | .int32 v => do
    let (result, stream) ← int32Serialize v stream
    .ok (result, .int32 v, stream, fs)
  | .uint64 v => do
    let (result, stream) ← uint64Serialize v stream
    .ok (result, .uint64 v, stream, fs)
  | .int64 v => do
    let (result, stream) ← int64Serialize v stream
    .ok (result, .int64 v, stream, fs)
  | .charArray array => do
    let (result, array, stream) ← charArraySerialize array stream
    .ok (result, .charArray array, stream, fs)
  | .wcharArray array => do
    let (result, array, stream) ← wcharArraySerialize array stream
    .ok (result, .wcharArray array, stream, fs)
  | .blob blob => do
    let (result, blob, stream, fs) ← blobSerialize copy blob stream fs
    .ok (result, .blob blob, stream, fs)

/-- `mrpc_T_unserialize`: the result, the value of the output variable if it was set, the stream and the files after
it. -/
def paramUnserialize (copy : CopyPlan) (paths : UniquePaths) (type : ParamType) (stream : List UInt8)
    (fs : FileSystem) : Except Fault (FfResult × Option ParamValue × List UInt8 × FileSystem) :=
  match type with
  | .uint32 =>
    let u := uint32Unserialize 0 stream
    .ok (u.result, if u.result = .success then some (.uint32 u.data) else none, u.stream, fs)
  | .int32 =>
    let u := int32Unserialize 0 stream
    .ok (u.result, if u.result = .success then some (.int32 u.data) else none, u.stream, fs)
  | .uint64 =>
    let u := uint64Unserialize 0 stream
    .ok (u.result, if u.result = .success then some (.uint64 u.data) else none, u.stream, fs)
  | .int64 =>
    let u := int64Unserialize 0 stream
    .ok (u.result, if u.result = .success then some (.int64 u.data) else none, u.stream, fs)
  | .charArray => do
    let u ← charArrayUnserialize none stream
    .ok (u.result, u.data.map .charArray, u.stream, fs)
  | .wcharArray => do
    let u ← wcharArrayUnserialize none stream
    .ok (u.result, u.data.map .wcharArray, u.stream, fs)
  | .blob => do
    let u ← blobUnserialize copy (paths.path fs) stream fs
    .ok (u.result, u.blob.map .blob, u.stream, u.fs)

/-- The parameters are written one after the other, as long as this succeeds. -/
def serializeAll (copy : CopyPlan) : List ParamValue → OutStream → FileSystem →
    Except Fault (FfResult × List ParamValue × OutStream × FileSystem)
  | [], stream, fs => .ok (.success, [], stream, fs)
  | v :: vs, stream, fs => do
    match ← paramSerialize copy v stream fs with
    | (.failure, v, stream, fs) => .ok (.failure, v :: vs, stream, fs)
    | (.success, v, stream, fs) =>
      let (result, vs, stream, fs) ← serializeAll copy vs stream fs
      .ok (result, v :: vs, stream, fs)

/-- Parameters of the given types are read one after the other, as long as this succeeds. -/
def unserializeAll (copy : CopyPlan) (paths : UniquePaths) : List ParamType → List UInt8 → FileSystem →
    Except Fault (FfResult × List (Option ParamValue) × List UInt8 × FileSystem)
  | [], stream, fs => .ok (.success, [], stream, fs)
  | type :: types, stream, fs => do
    match ← paramUnserialize copy paths type stream fs with
    | (.failure, v, stream, fs) => .ok (.failure, [v], stream, fs)
    | (.success, v, stream, fs) =>
      let (result, vs, stream, fs) ← unserializeAll copy paths types stream fs
      .ok (result, v :: vs, stream, fs)

/-! ## The round trip -/

/-- `fs'` has every file of `fs`, as it was, and operations end as before. -/
structure FileSystem.Extends (fs fs' : FileSystem) : Prop where
  outcomes : fs'.outcomes = fs.outcomes
  files : ∀ path bytes, fs.files path = some bytes → fs'.files path = some bytes

theorem FileSystem.Extends.refl (fs : FileSystem) : fs.Extends fs := ⟨rfl, fun _ _ h => h⟩

theorem FileSystem.Extends.trans {fs₁ fs₂ fs₃ : FileSystem} (h₁ : fs₁.Extends fs₂) (h₂ : fs₂.Extends fs₃) :
    fs₁.Extends fs₃ :=
  ⟨h₂.outcomes.trans h₁.outcomes, fun path bytes h => h₂.files path bytes (h₁.files path bytes h)⟩

theorem FileSystem.Extends.reliable {fs fs' : FileSystem} (h : fs.Extends fs') (hfs : fs.Reliable) : fs'.Reliable := by
  intro n
  rw [h.outcomes]
  exact hfs n

theorem Says.mono {fs fs' : FileSystem} {v : ParamValue} {c : Content} (h : Says fs v c) (hfs : fs.Extends fs') :
    Says fs' v c := by
  cases h with
  | uint32 v => exact .uint32 v
  | int32 v => exact .int32 v
  | uint64 v => exact .uint64 v
  | int64 v => exact .int64 v
  | charArray href hlen => exact .charArray href hlen
  | wcharArray href hlen hall => exact .wcharArray href hlen hall
  | blob hb => exact .blob ⟨hb.state, hb.refCnt, hb.len, hb.len_le, hfs.files _ _ hb.file⟩

/-- What was written as `bytes` is read back, on any machine whose files work, as a parameter of the type that says
`c`. -/
def ReadsBack (copy : CopyPlan) (paths : UniquePaths) (type : ParamType) (bytes : List UInt8) (c : Content) : Prop :=
  ∀ (fs : FileSystem) (trailing : List UInt8), fs.Reliable → fs.Finite → ∃ v fs',
    paramUnserialize copy paths type (bytes ++ trailing) fs = .ok (.success, some v, trailing, fs') ∧
      Says fs' v c ∧ fs.Extends fs' ∧ fs'.Finite

theorem FileSystem.SameBut.finite {fs fs' : FileSystem} {path : String} (h : fs.SameBut fs' path) (hfs : fs.Finite) :
    fs'.Finite := by
  apply (hfs.insert path).subset
  intro p hp
  by_cases hne : p = path
  · exact Or.inl hne
  · right
    show (fs.files p).isSome = true
    rw [← h.files p hne]
    exact hp

/-- **A parameter is written, and read back.** -/
theorem param_roundTrip (copy copy' : CopyPlan) (paths : UniquePaths) {fs : FileSystem} {v : ParamValue} {c : Content}
    (hv : Says fs v c) (hfs : fs.Reliable) {stream : OutStream} (hs : stream.Lossless) :
    ∃ bytes stream' fs', paramSerialize copy v stream fs = .ok (.success, v, stream', fs') ∧
      stream.Wrote bytes stream' ∧ fs.Extends fs' ∧ ReadsBack copy' paths v.type bytes c := by
  cases hv with
  | uint32 v =>
    obtain ⟨bytes, stream', hrun, hwrote, hread⟩ := uint32_roundTrips v stream hs
    refine ⟨bytes, stream', fs, by rw [paramSerialize, hrun]; rfl, hwrote, .refl fs, fun fs' trailing _ hfin => ?_⟩
    exact ⟨.uint32 v, fs', by simp only [ParamValue.type, paramUnserialize, hread, if_true], .uint32 v, .refl fs', hfin⟩
  | int32 v =>
    obtain ⟨bytes, stream', hrun, hwrote, hread⟩ := int32_roundTrips v stream hs
    refine ⟨bytes, stream', fs, by rw [paramSerialize, hrun]; rfl, hwrote, .refl fs, fun fs' trailing _ hfin => ?_⟩
    exact ⟨.int32 v, fs', by simp only [ParamValue.type, paramUnserialize, hread, if_true], .int32 v, .refl fs', hfin⟩
  | uint64 v =>
    obtain ⟨bytes, stream', hrun, hwrote, hread⟩ := uint64_roundTrips v stream hs
    refine ⟨bytes, stream', fs, by rw [paramSerialize, hrun]; rfl, hwrote, .refl fs, fun fs' trailing _ hfin => ?_⟩
    exact ⟨.uint64 v, fs', by simp only [ParamValue.type, paramUnserialize, hread, if_true], .uint64 v, .refl fs', hfin⟩
  | int64 v =>
    obtain ⟨bytes, stream', hrun, hwrote, hread⟩ := int64_roundTrips v stream hs
    refine ⟨bytes, stream', fs, by rw [paramSerialize, hrun]; rfl, hwrote, .refl fs, fun fs' trailing _ hfin => ?_⟩
    exact ⟨.int64 v, fs', by simp only [ParamValue.type, paramUnserialize, hread, if_true], .int64 v, .refl fs', hfin⟩
  | @charArray array href hlen =>
    obtain ⟨bytes, stream', hrun, hwrote, hread⟩ := charArray_roundTrip href hlen hs
    refine ⟨bytes, stream', fs, by rw [paramSerialize, hrun]; rfl, hwrote, .refl fs, fun fs' trailing _ hfin => ?_⟩
    refine ⟨.charArray ⟨array.value, 1⟩, fs', ?_, @Says.charArray _ ⟨array.value, 1⟩ Nat.one_pos hlen, .refl fs', hfin⟩
    rw [ParamValue.type, paramUnserialize, hread]
    rfl
  | @wcharArray array href hlen hall =>
    obtain ⟨bytes, stream', hrun, hwrote, hread⟩ := wcharArray_roundTrip href hlen hall hs
    refine ⟨bytes, stream', fs, by rw [paramSerialize, hrun]; rfl, hwrote, .refl fs, fun fs' trailing _ hfin => ?_⟩
    have hsaid : Says fs' (.wcharArray ⟨array.value, 1⟩) (.wcharArray array.value) := .wcharArray Nat.one_pos hlen hall
    refine ⟨_, fs', ?_, hsaid, .refl fs', hfin⟩
    rw [ParamValue.type, paramUnserialize, hread]
    rfl
  | blob hb =>
    obtain ⟨octets, stream', fs₁, hrun, hwrote, hfiles, hout, hread⟩ := blobSerialize_spec copy hfs hb hs
    refine ⟨octets ++ _, stream', fs₁, by rw [paramSerialize, hrun]; rfl, hwrote,
      ⟨hout, fun path bytes h => by rw [hfiles]; exact h⟩, fun fs' trailing hfs' hfin => ?_⟩
    obtain ⟨blob, fs₂, hrun₂, hholds, -, -, hframe⟩ :=
      @blobUnserialize_spec copy' (paths.path fs') _ _ trailing _ hfs' hb.len_le hread
    refine ⟨.blob blob, fs₂, ?_, .blob hholds, ⟨hframe.outcomes, fun p bytes h => ?_⟩, hframe.finite hfin⟩
    · rw [ParamValue.type, paramUnserialize, hrun₂]
      rfl
    · -- the new file is none that was there
      have hne : p ≠ paths.path fs' := by
        intro heq
        rw [heq, paths.unused fs' hfin] at h
        cases h
      rw [hframe.files p hne]
      exact h

/-- **Parameters of mixed types, written to one stream, are read back unchanged and to the last byte.** -/
theorem params_roundTrip (copy copy' : CopyPlan) (paths : UniquePaths) :
    ∀ (vs : List ParamValue) (cs : List Content) (fs : FileSystem) (stream : OutStream), fs.Reliable →
      List.Forall₂ (Says fs) vs cs → stream.Lossless →
      ∃ bytes stream' fs', serializeAll copy vs stream fs = .ok (.success, vs, stream', fs') ∧
        stream.Wrote bytes stream' ∧ fs.Extends fs' ∧
        ∀ (fs₁ : FileSystem) (trailing : List UInt8), fs₁.Reliable → fs₁.Finite → ∃ vs' fs₂,
          unserializeAll copy' paths (vs.map ParamValue.type) (bytes ++ trailing) fs₁
            = .ok (.success, vs'.map some, trailing, fs₂) ∧
          List.Forall₂ (Says fs₂) vs' cs ∧ fs₁.Extends fs₂
  | [], cs, fs, stream, _, hvs, hs => by
    cases hvs
    refine ⟨[], stream, fs, rfl, OutStream.Wrote.nil hs, .refl fs, fun fs₁ trailing _ _ => ?_⟩
    exact ⟨[], fs₁, rfl, .nil, .refl fs₁⟩
  | v :: vs, cs, fs, stream, hfs, hvs, hs => by
    cases hvs with
    | @cons _ c _ cs hv hvs =>
      obtain ⟨bytes, s₁, fs₁, hrun, hwrote, hext, hread⟩ := param_roundTrip copy copy' paths hv hfs hs
      obtain ⟨bytes', s₂, fs₂, hrun', hwrote', hext', hread'⟩ :=
        params_roundTrip copy copy' paths vs cs fs₁ s₁ (hext.reliable hfs) (hvs.imp fun _ _ h => h.mono hext)
          hwrote.lossless
      refine ⟨bytes ++ bytes', s₂, fs₂, ?_, hwrote.append hwrote', hext.trans hext', fun fs₃ trailing hfs₃ hfin => ?_⟩
      · rw [serializeAll, hrun, ok_bind]
        dsimp only
        rw [hrun']
        rfl
      · -- a blob that was read first keeps its file while the others are read
        obtain ⟨v', fs₄, hget, hsaid, hext₄, hfin₄⟩ := hread fs₃ (bytes' ++ trailing) hfs₃ hfin
        obtain ⟨vs', fs₅, hgets, hsaid', hext₅⟩ := hread' fs₄ trailing (hext₄.reliable hfs₃) hfin₄
        refine ⟨v' :: vs', fs₅, ?_, .cons (hsaid.mono hext₅) hsaid', hext₄.trans hext₅⟩
        rw [List.map_cons, unserializeAll, List.append_assoc, hget, ok_bind]
        dsimp only
        rw [hgets]
        rfl

/-- A supply of paths: `/tmp/mrpc_blob.` with as many zeros as it takes. -/
def zeroPath (n : Nat) : String := "/tmp/mrpc_blob.".pushn '0' n

theorem exists_zeroPath {fs : FileSystem} (h : fs.Finite) : ∃ n, fs.files (zeroPath n) = none := by
  by_contra hall
  push Not at hall
  have hinj : Function.Injective zeroPath := by
    intro m n heq
    have hlen := congrArg String.length heq
    simp only [zeroPath, String.length_pushn] at hlen
    omega
  apply Set.infinite_range_of_injective hinj
  apply h.subset
  rintro p ⟨n, rfl⟩
  exact Option.isSome_iff_ne_none.2 (hall n)

open Classical in
noncomputable def zeroPaths : UniquePaths where
  path fs := if h : ∃ n, fs.files (zeroPath n) = none then zeroPath (Nat.find h) else ""
  unused fs hfin := by
    have h := exists_zeroPath hfin
    rw [dif_pos h]
    exact Nat.find_spec h

/-- Files of which one holds two bytes. -/
def oneFile : FileSystem := ⟨fun p => if p = "/tmp/b" then some [7, 8] else none, fun _ => .success, []⟩

/-- A negative number, a string and a blob. -/
theorem params_roundTrip_oneFile : ∃ bytes stream' fs',
    serializeAll ⟨fun len => [len], fun _ => List.sum_singleton⟩
      [.int32 (-1), .charArray ⟨[65], 1⟩, .blob ⟨"/tmp/b", 2, .complete, 1⟩] ⟨[], []⟩ oneFile
        = .ok (.success, [.int32 (-1), .charArray ⟨[65], 1⟩, .blob ⟨"/tmp/b", 2, .complete, 1⟩], stream', fs') ∧
    OutStream.Wrote ⟨[], []⟩ bytes stream' ∧
    ∃ vs' fs₂, unserializeAll ⟨fun len => [len], fun _ => List.sum_singleton⟩ zeroPaths [.int32, .charArray, .blob]
        (bytes ++ [9]) oneFile = .ok (.success, vs'.map some, [9], fs₂) ∧
      List.Forall₂ (Says fs₂) vs' [.int32 (-1), .charArray [65], .blob [7, 8]] := by
  have hfin : oneFile.Finite := by
    apply (Set.finite_singleton "/tmp/b").subset
    intro p hp
    by_contra hne
    have hnone : oneFile.files p = none := if_neg hne
    simp [hnone] at hp
  have hblob : Holds oneFile ⟨"/tmp/b", 2, .complete, 1⟩ [7, 8] := ⟨rfl, Nat.one_pos, rfl, by decide, rfl⟩
  obtain ⟨bytes, stream', fs', hrun, hwrote, -, hread⟩ :=
    params_roundTrip ⟨fun len => [len], fun _ => List.sum_singleton⟩ ⟨fun len => [len], fun _ => List.sum_singleton⟩
      zeroPaths [.int32 (-1), .charArray ⟨[65], 1⟩, .blob ⟨"/tmp/b", 2, .complete, 1⟩]
      [.int32 (-1), .charArray [65], .blob [7, 8]] oneFile ⟨[], []⟩ (fun _ => rfl)
      (.cons (.int32 _) (.cons (@Says.charArray _ ⟨[65], 1⟩ Nat.one_pos (by decide)) (.cons (.blob hblob) .nil)))
      (fun o ho => by cases ho)
  obtain ⟨vs', fs₂, hback, hsaid, -⟩ := hread oneFile [9] (fun _ => rfl) hfin
  exact ⟨bytes, stream', fs', hrun, hwrote, vs', fs₂, hback, hsaid⟩

end Mrpc
