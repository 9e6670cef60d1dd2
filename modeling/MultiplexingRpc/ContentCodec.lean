import MultiplexingRpc.GeneratedCall
import MultiplexingRpc.ParamCodec
/-!
# ContentCodec — the parameter codecs on streams that end anywhere

`ParamCodec` reads back what was written as a whole.  A connection that breaks leaves a part of it; what keeps a decoder
from making a value of that part is that every encoding says where it ends: what was decoded once is decoded from every
longer stream as well.  `contentCodecs` are the seven `mrpc_T_serialize` and `mrpc_T_unserialize` as such codecs, over the
contents of the parameters.
-/
namespace Mrpc

variable {V : Type}

/-- Codecs of streams that may end anywhere: what a decoder takes from a stream it takes from a longer one too, and no
value is written as nothing. -/
structure StreamCodecs (V : Type) extends Codecs V where
  stable : ∀ {type : ParamType} {stream rest : List UInt8} {v : V}, unserialize type stream = (some v, rest) →
    ∀ more, unserialize type (stream ++ more) = (some v, rest ++ more)
  serialize_ne_nil : ∀ {type : ParamType} {v : V}, Admits type v → (serialize type v).2 ≠ []

namespace StreamCodecs

variable (codecs : StreamCodecs V)

/-- **A decoder that succeeds on a part of what was written** has the first value, and leaves a part of the others. -/
theorem of_prefix {type : ParamType} {v w : V} {stream rest rest' : List UInt8} (h : codecs.Admits type v)
    (hle : stream <+: (codecs.serialize type v).2 ++ rest) (hu : codecs.unserialize type stream = (some w, rest')) :
    w = v ∧ ∃ more, stream ++ more = (codecs.serialize type v).2 ++ rest ∧ rest' ++ more = rest := by
  obtain ⟨more, hmore⟩ := hle
  have hlong := codecs.stable hu more
  rw [hmore, codecs.roundTrip h] at hlong
  obtain ⟨hv, hrest⟩ := Prod.mk.inj hlong
  exact ⟨(Option.some.inj hv).symm, more, hmore, hrest.symm⟩

theorem encoded_ne_nil {params : List Param} {k : Nat} {vals : Nat → V} (hne : params ≠ [])
    (h : codecs.AdmitsAll params k vals) : codecs.encoded params k vals ≠ [] := by
  cases params with
  | nil => exact absurd rfl hne
  | cons param params =>
    rw [codecs.encoded_cons]
    exact fun hnil => codecs.serialize_ne_nil (codecs.admitsAll_cons h).1 (List.append_eq_nil_iff.1 hnil).1

end StreamCodecs

/-! ## Numbers -/

/-- The decoder takes these octets for `v`, whatever follows them. -/
def Takes {α : Type} (unserialize : α → List UInt8 → Unserialized α) (os : List UInt8) (v : α) : Prop :=
  ∀ data rest, unserialize data (os ++ rest) = ⟨.success, v, rest⟩

theorem uint64_takes {data v : UInt64} {stream rest : List UInt8}
    (h : uint64Unserialize data stream = ⟨.success, v, rest⟩) : ∃ os, stream = os ++ rest ∧ Takes uint64Unserialize os v := by
  obtain ⟨os, hos, hlen, hsucc, -⟩ := uint64Unserialize_spec data stream
  rw [h] at hos hsucc
  obtain ⟨hwt, hval⟩ := hsucc rfl
  have hv : v = UInt64.ofNat (octetSum os) := by
    apply UInt64.toNat_inj.1
    rw [hval, UInt64.toNat_ofNat']
  refine ⟨os, hos, fun data' rest' => ?_⟩
  rw [uint64Unserialize_append hwt hlen, ← hv]

/-- **A decoder built on another takes the same octets.** -/
theorem takes_of_inner {α β : Type} {inner : α → List UInt8 → Unserialized α} {outer : β → List UInt8 → Unserialized β}
    (data₀ : α) (hinner : ∀ {v stream rest}, inner data₀ stream = ⟨.success, v, rest⟩ →
      ∃ os, stream = os ++ rest ∧ Takes inner os v)
    (hout : ∀ {data stream v rest}, outer data stream = ⟨.success, v, rest⟩ →
      ∃ u, inner data₀ stream = ⟨.success, u, rest⟩ ∧ ∀ data' stream' rest',
        inner data₀ stream' = ⟨.success, u, rest'⟩ → outer data' stream' = ⟨.success, v, rest'⟩)
    {data v : β} {stream rest : List UInt8} (h : outer data stream = ⟨.success, v, rest⟩) :
    ∃ os, stream = os ++ rest ∧ Takes outer os v := by
  obtain ⟨u, hu, hagain⟩ := hout h
  obtain ⟨os, hos, htakes⟩ := hinner hu
  exact ⟨os, hos, fun data' rest' => hagain data' _ rest' (htakes data₀ rest')⟩

theorem uint32_takes {data v : UInt32} {stream rest : List UInt8}
    (h : uint32Unserialize data stream = ⟨.success, v, rest⟩) : ∃ os, stream = os ++ rest ∧ Takes uint32Unserialize os v := by
  refine takes_of_inner 0 uint64_takes (fun {data stream v rest} h => ?_) h
  unfold uint32Unserialize at h
  split at h
  · rename_i uData rest' hu
    split at h
    · rename_i hle
      cases h
      refine ⟨uData, hu, fun data' stream' rest' hu' => ?_⟩
      unfold uint32Unserialize
      rw [hu']
      exact if_pos hle
    · cases h
  · cases h

theorem int64_takes {data v : Int64} {stream rest : List UInt8}
    (h : int64Unserialize data stream = ⟨.success, v, rest⟩) : ∃ os, stream = os ++ rest ∧ Takes int64Unserialize os v := by
  refine takes_of_inner 0 uint64_takes (fun {data stream v rest} h => ?_) h
  unfold int64Unserialize at h
  split at h
  · rename_i uData rest' hu
    cases h
    refine ⟨uData, hu, fun data' stream' rest' hu' => ?_⟩
    unfold int64Unserialize
    rw [hu']
  · cases h

theorem int32_takes {data v : Int32} {stream rest : List UInt8}
    (h : int32Unserialize data stream = ⟨.success, v, rest⟩) : ∃ os, stream = os ++ rest ∧ Takes int32Unserialize os v := by
  refine takes_of_inner 0 uint32_takes (fun {data stream v rest} h => ?_) h
  unfold int32Unserialize at h
  split at h
  · rename_i uData rest' hu
    cases h
    refine ⟨uData, hu, fun data' stream' rest' hu' => ?_⟩
    unfold int32Unserialize
    rw [hu']
  · cases h

/-! ## Arrays and blobs -/

theorem charArrayUnserialize_stable {stream rest : List UInt8} {array : CharArray}
    (h : charArrayUnserialize none stream = .ok ⟨.success, some array, rest⟩) (more : List UInt8) :
    charArrayUnserialize none (stream ++ more) = .ok ⟨.success, some array, rest ++ more⟩ := by
  unfold charArrayUnserialize at h
  split at h
  · cases h
  · rename_i uLen behind hu
    obtain ⟨os, rfl, htakes⟩ := uint32_takes hu
    split at h
    · cases h
    · rename_i hmax
      split at h
      · cases h
      · rename_i hlen
        have hle : uLen.toNat ≤ behind.length := Nat.le_of_not_lt hlen
        have hlong : ¬ (behind ++ more).length < uLen.toNat := by
          rw [List.length_append]
          omega
        unfold charArrayUnserialize
        rw [List.append_assoc, htakes]
        dsimp only
        rw [if_neg hmax, if_neg hlong, List.take_append_of_le_length hle, List.drop_append_of_le_length hle]
        cases hcreate : charArrayCreate (behind.take uLen.toNat) with
        | error fault =>
          rw [hcreate] at h
          cases h
        | ok array' =>
          rw [hcreate, ok_bind] at h
          cases h
          rfl

theorem wcharArrayUnserializeLoop_stable : ∀ (n : Nat) (value : List UInt32) {stream rest : List UInt8}
    {value' : List UInt32}, wcharArrayUnserializeLoop n value stream = ⟨.success, value', rest⟩ → ∀ more,
      wcharArrayUnserializeLoop n value (stream ++ more) = ⟨.success, value', rest ++ more⟩
  | 0, value, stream, rest, value', h, more => by
    cases h
    rfl
  | n + 1, value, stream, rest, value', h, more => by
    unfold wcharArrayUnserializeLoop at h
    split at h
    · cases h
    · rename_i ch behind hu
      obtain ⟨os, rfl, htakes⟩ := uint32_takes hu
      split at h
      · cases h
      · rename_i hlt
        unfold wcharArrayUnserializeLoop
        rw [List.append_assoc, htakes]
        dsimp only
        rw [if_neg hlt]
        exact wcharArrayUnserializeLoop_stable n _ h more

theorem wcharArrayUnserialize_stable {stream rest : List UInt8} {array : WcharArray}
    (h : wcharArrayUnserialize none stream = .ok ⟨.success, some array, rest⟩) (more : List UInt8) :
    wcharArrayUnserialize none (stream ++ more) = .ok ⟨.success, some array, rest ++ more⟩ := by
  unfold wcharArrayUnserialize at h
  split at h
  · cases h
  · rename_i uLen behind hu
    obtain ⟨os, rfl, htakes⟩ := uint32_takes hu
    split at h
    · cases h
    · rename_i hmax
      split at h
      · cases h
      · rename_i value behind' hloop
        unfold wcharArrayUnserialize
        rw [List.append_assoc, htakes]
        dsimp only
        rw [if_neg hmax, wcharArrayUnserializeLoop_stable _ _ hloop more]
        dsimp only
        cases hcreate : wcharArrayCreate value with
        | error fault =>
          rw [hcreate] at h
          cases h
        | ok array' =>
          rw [hcreate, ok_bind] at h
          cases h
          rfl

/-- **A blob that was decoded took its length and so many bytes**, and its file has them. -/
theorem blobUnserialize_takes (copy : CopyPlan) {filePath : String} {stream rest : List UInt8} {fs fs' : FileSystem}
    {b : Blob} {new : Option Blob} (h : blobUnserialize copy filePath stream fs = .ok ⟨.success, some b, new, rest, fs'⟩) :
    ∃ os bytes, stream = os ++ bytes ++ rest ∧ bytes.length ≤ 2 ^ 31 - 1 ∧
      Takes uint32Unserialize os (UInt32.ofNat bytes.length) ∧ fs'.files b.filePath = some bytes := by
  have hlength : ∃ l behind, lengthDecoded stream = some (l, behind) := by
    unfold blobUnserialize at h
    unfold lengthDecoded
    rcases hu : uint32Unserialize 0 stream with ⟨result, l, behind⟩
    rw [hu] at h
    cases result with
    | failure => cases h
    | success => exact ⟨l, behind, rfl⟩
  obtain ⟨l, behind, hl⟩ := hlength
  obtain ⟨os, hos, htakes⟩ := uint32_takes (uint32Unserialize_of_lengthDecoded hl)
  have hlt : l.toNat < 2 ^ 31 := by
    by_contra hge
    unfold blobUnserialize at h
    rw [uint32Unserialize_of_lengthDecoded hl] at h
    dsimp only at h
    rw [if_pos ((toInt32_neg_iff l).2 (by omega))] at h
    cases h
  obtain ⟨r, hrun, hexact⟩ := decodesBlob_of_lt copy filePath stream fs hl hlt
  rw [h] at hrun
  cases hrun
  obtain ⟨l', behind', hl', hblob, hfile, hlen, hrest⟩ := hexact.of_success rfl
  rw [hl] at hl'
  cases hl'
  cases hblob
  refine ⟨os, behind.take l.toNat, ?_, ?_, ?_, hfile⟩
  · rw [hos, List.append_assoc]
    have hrest : rest = behind.drop l.toNat := hrest
    rw [hrest, List.take_append_drop]
  · omega
  · have hofNat : UInt32.ofNat l.toNat = l := by simp
    rw [hlen, hofNat]
    exact htakes

/-! ## The codecs -/

namespace Content

def type : Content → ParamType
  | uint32 _ => .uint32
  | int32 _ => .int32
  | uint64 _ => .uint64
  | int64 _ => .int64
  | charArray _ => .charArray
  | wcharArray _ => .wcharArray
  | blob _ => .blob

/-- Some parameter says it. -/
def Admitted : Content → Prop
  | charArray value => value.length ≤ maxCharArrayLength
  | wcharArray value => value.length ≤ maxWcharArrayLength ∧ ∀ ch ∈ value, ch.toNat < 0x10000
  | blob bytes => bytes.length ≤ 2 ^ 31 - 1
  | _ => True

/-- Files that work, of which one may be there. -/
def files (file : Option (List UInt8)) : FileSystem :=
  ⟨fun path => if path = "" then file else none, fun _ => .success, []⟩

/-- A parameter that says it, with its files. -/
def param : Content → ParamValue × FileSystem
  | uint32 v => (.uint32 v, files none)
  | int32 v => (.int32 v, files none)
  | uint64 v => (.uint64 v, files none)
  | int64 v => (.int64 v, files none)
  | charArray value => (.charArray ⟨value, 1⟩, files none)
  | wcharArray value => (.wcharArray ⟨value, 1⟩, files none)
  | blob bytes => (.blob ⟨"", bytes.length, .complete, 1⟩, files (some bytes))

/-- What a parameter says. -/
def ofParam (fs : FileSystem) : ParamValue → Option Content
  | .uint32 v => some (uint32 v)
  | .int32 v => some (int32 v)
  | .uint64 v => some (uint64 v)
  | .int64 v => some (int64 v)
  | .charArray array => some (charArray array.value)
  | .wcharArray array => some (wcharArray array.value)
  | .blob b => (fs.files b.filePath).map blob

theorem says_param {c : Content} (h : c.Admitted) : Says c.param.2 c.param.1 c := by
  cases c with
  | uint32 v => exact .uint32 v
  | int32 v => exact .int32 v
  | uint64 v => exact .uint64 v
  | int64 v => exact .int64 v
  | charArray value => exact @Says.charArray _ ⟨value, 1⟩ Nat.one_pos h
  | wcharArray value => exact @Says.wcharArray _ ⟨value, 1⟩ Nat.one_pos h.1 h.2
  | blob bytes => exact .blob ⟨rfl, Nat.one_pos, rfl, h, rfl⟩

theorem reliable_files (file : Option (List UInt8)) : (files file).Reliable := fun _ => rfl

theorem finite_files (file : Option (List UInt8)) : (files file).Finite := by
  apply (Set.finite_singleton "").subset
  intro path hpath
  by_contra hne
  have hnone : (files file).files path = none := if_neg hne
  simp [hnone] at hpath

theorem reliable_param (c : Content) : c.param.2.Reliable := by cases c <;> exact reliable_files _

theorem type_param (c : Content) : c.param.1.type = c.type := by cases c <;> rfl

theorem ofParam_of_says {fs : FileSystem} {v : ParamValue} {c : Content} (h : Says fs v c) : ofParam fs v = some c := by
  cases h with
  | blob hb =>
    show (fs.files _).map blob = _
    rw [hb.file]
    rfl
  | _ => rfl

end Content

/-- What `mrpc_T_serialize` makes of a parameter: its result and the bytes on a stream that takes them. -/
def contentSerialize (copy : CopyPlan) (c : Content) : FfResult × List UInt8 :=
  match paramSerialize copy c.param.1 ⟨[], []⟩ c.param.2 with
  | .ok (result, _, stream, _) => (result, stream.written)
  | .error _ => (.failure, [])

/-- What the parameter says that `mrpc_T_unserialize` makes of a stream, if it makes one, and the rest of the stream. -/
def contentUnserialize (copy : CopyPlan) (paths : UniquePaths) (type : ParamType) (stream : List UInt8) :
    Option Content × List UInt8 :=
  match paramUnserialize copy paths type stream (Content.files none) with
  | .ok (.success, some v, rest, fs) => (Content.ofParam fs v, rest)
  | .ok (_, _, rest, _) => (none, rest)
  | .error _ => (none, stream)

section Codec

variable {copy : CopyPlan} {paths : UniquePaths} {type : ParamType} {stream rest : List UInt8} {c : Content}

theorem contentSerialize_spec (copy : CopyPlan) (paths : UniquePaths) (h : c.Admitted) :
    ∃ bytes, contentSerialize copy c = (.success, bytes) ∧ ReadsBack copy paths c.type bytes c := by
  have hlossless : OutStream.Lossless ⟨[], []⟩ := by
    intro o ho
    cases ho
  obtain ⟨bytes, stream, fs, hrun, hwrote, -, hread⟩ :=
    param_roundTrip copy copy paths (Content.says_param h) c.reliable_param hlossless
  refine ⟨bytes, ?_, c.type_param ▸ hread⟩
  unfold contentSerialize
  rw [hrun]
  dsimp only
  rw [hwrote.written]
  rfl

theorem contentUnserialize_of_readsBack {bytes : List UInt8} (h : ReadsBack copy paths type bytes c) (rest : List UInt8) :
    contentUnserialize copy paths type (bytes ++ rest) = (some c, rest) := by
  obtain ⟨v, fs, hrun, hsays, -, -⟩ := h (Content.files none) rest (Content.reliable_files _) (Content.finite_files _)
  unfold contentUnserialize
  rw [hrun]
  dsimp only
  rw [Content.ofParam_of_says hsays]

theorem paramUnserialize_of_contentUnserialize (h : contentUnserialize copy paths type stream = (some c, rest)) :
    ∃ v fs, paramUnserialize copy paths type stream (Content.files none) = .ok (.success, some v, rest, fs) ∧
      Content.ofParam fs v = some c := by
  unfold contentUnserialize at h
  split at h
  · rename_i v rest' fs hrun
    obtain ⟨hv, rfl⟩ := Prod.mk.inj h
    exact ⟨v, fs, hrun, hv⟩
  · cases h
  · cases h

theorem contentUnserialize_eq {v : ParamValue} {fs : FileSystem}
    (h : paramUnserialize copy paths type stream (Content.files none) = .ok (.success, some v, rest, fs)) :
    contentUnserialize copy paths type stream = (Content.ofParam fs v, rest) := by
  unfold contentUnserialize
  rw [h]

/-- Of a number of the type, it is the decoder of the type. -/
theorem paramUnserialize_number {α : Type} {unserialize : α → List UInt8 → Unserialized α} {data : α}
    {toParam : α → ParamValue}
    (hparam : ∀ stream fs, paramUnserialize copy paths type stream fs = .ok ((unserialize data stream).result,
      if (unserialize data stream).result = .success then some (toParam (unserialize data stream).data) else none,
      (unserialize data stream).stream, fs))
    (htakes : ∀ {v stream rest}, unserialize data stream = ⟨.success, v, rest⟩ →
      ∃ os, stream = os ++ rest ∧ Takes unserialize os v)
    {v : ParamValue} {fs fs' : FileSystem} (h : paramUnserialize copy paths type stream fs = .ok (.success, some v, rest, fs'))
    (more : List UInt8) : paramUnserialize copy paths type (stream ++ more) fs = .ok (.success, some v, rest ++ more, fs') := by
  rw [hparam] at h ⊢
  rcases hu : unserialize data stream with ⟨result, d, rest'⟩
  rw [hu] at h
  cases result with
  | failure => cases h
  | success =>
    cases h
    obtain ⟨os, rfl, hos⟩ := htakes hu
    rw [List.append_assoc, hos]
    rfl

/-- **What was decoded once is decoded from every longer stream.** -/
theorem contentUnserialize_stable (h : contentUnserialize copy paths type stream = (some c, rest)) (more : List UInt8) :
    contentUnserialize copy paths type (stream ++ more) = (some c, rest ++ more) := by
  obtain ⟨v, fs, hrun, hv⟩ := paramUnserialize_of_contentUnserialize h
  rw [← hv]
  cases type with
  | uint32 => exact contentUnserialize_eq (paramUnserialize_number (fun _ _ => rfl) uint32_takes hrun more)
  | int32 => exact contentUnserialize_eq (paramUnserialize_number (fun _ _ => rfl) int32_takes hrun more)
  | uint64 => exact contentUnserialize_eq (paramUnserialize_number (fun _ _ => rfl) uint64_takes hrun more)
  | int64 => exact contentUnserialize_eq (paramUnserialize_number (fun _ _ => rfl) int64_takes hrun more)
  | charArray =>
    unfold paramUnserialize at hrun
    cases hu : charArrayUnserialize none stream with
    | error fault =>
      rw [hu] at hrun
      cases hrun
    | ok u =>
      obtain ⟨result, data, rest'⟩ := u
      rw [hu, ok_bind] at hrun
      cases data with
      | none => cases hrun
      | some array =>
        cases hrun
        apply contentUnserialize_eq
        rw [paramUnserialize, charArrayUnserialize_stable hu more]
        rfl
  | wcharArray =>
    unfold paramUnserialize at hrun
    cases hu : wcharArrayUnserialize none stream with
    | error fault =>
      rw [hu] at hrun
      cases hrun
    | ok u =>
      obtain ⟨result, data, rest'⟩ := u
      rw [hu, ok_bind] at hrun
      cases data with
      | none => cases hrun
      | some array =>
        cases hrun
        apply contentUnserialize_eq
        rw [paramUnserialize, wcharArrayUnserialize_stable hu more]
        rfl
  | blob =>
    unfold paramUnserialize at hrun
    cases hu : blobUnserialize copy (paths.path (Content.files none)) stream (Content.files none) with
    | error fault =>
      rw [hu] at hrun
      cases hrun
    | ok u =>
      obtain ⟨result, data, new, rest', fs'⟩ := u
      rw [hu, ok_bind] at hrun
      cases data with
      | none => cases hrun
      | some b =>
        cases hrun
        obtain ⟨os, bytes, rfl, hle, htakes, hfile⟩ := blobUnserialize_takes copy hu
        obtain ⟨b', fs'', hrun', hholds, -, -, -⟩ := @blobUnserialize_spec copy (paths.path (Content.files none)) os bytes
          (rest' ++ more) _ (Content.reliable_files none) hle htakes
        have hsame : Content.ofParam fs' (.blob b) = Content.ofParam fs'' (.blob b') := by
          show (fs'.files b.filePath).map _ = (fs''.files b'.filePath).map _
          rw [hfile, hholds.file]
        rw [hsame]
        apply contentUnserialize_eq
        rw [paramUnserialize, List.append_assoc (os ++ bytes), hrun']
        rfl

/-- **Nothing is decoded of nothing.** -/
theorem contentUnserialize_nil (copy : CopyPlan) (paths : UniquePaths) (type : ParamType) :
    (contentUnserialize copy paths type []).1 = none := by
  have hu : uint32Unserialize 0 [] = ⟨.failure, 0, []⟩ := rfl
  cases type with
  | charArray =>
    simp only [contentUnserialize, paramUnserialize, charArrayUnserialize, hu]
    rfl
  | wcharArray =>
    simp only [contentUnserialize, paramUnserialize, wcharArrayUnserialize, hu]
    rfl
  | blob =>
    simp only [contentUnserialize, paramUnserialize, blobUnserialize, hu]
    rfl
  | _ => rfl

end Codec

/-- The codecs of the seven types, over what parameters say. -/
def contentCodecs (copy : CopyPlan) (paths : UniquePaths) : StreamCodecs Content where
  serialize _ c := contentSerialize copy c
  unserialize type stream := contentUnserialize copy paths type stream
  Admits type c := c.type = type ∧ c.Admitted
  serialize_success := by
    rintro type c ⟨rfl, h⟩
    obtain ⟨bytes, hrun, -⟩ := contentSerialize_spec copy paths h
    rw [hrun]
  roundTrip := by
    rintro type c ⟨rfl, h⟩ rest
    obtain ⟨bytes, hrun, hread⟩ := contentSerialize_spec copy paths h
    rw [hrun]
    exact contentUnserialize_of_readsBack hread rest
  stable := fun h more => contentUnserialize_stable h more
  serialize_ne_nil := by
    rintro type c ⟨rfl, h⟩ hnil
    obtain ⟨bytes, hrun, hread⟩ := contentSerialize_spec copy paths h
    rw [hrun] at hnil
    have hnil : bytes = [] := hnil
    subst hnil
    have hnone := contentUnserialize_nil copy paths c.type
    rw [← List.append_nil [], contentUnserialize_of_readsBack hread []] at hnone
    cases hnone

end Mrpc
