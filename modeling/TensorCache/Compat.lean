import TensorCache.Geometry
import TensorCache.Hash

/-!
# Canonical identities

Reuse is gated by a compatibility key, and objects are addressed by namespace, key and
generation. Both are identified by the SHA-256 digest of a canonical, versioned encoding with
length-prefixed fields. The encodings are injective, for every layout: also for strided layouts
that `Layout.validate` rejects, which the encoder does not look at.
-/

namespace TensorCache

open Codec

def canonVersion : UInt8 := 1

/-- The fields that gate whether one tensor may safely be reused as another. -/
structure CompatKey where
  model : Option Str := none
  modelRevision : Option Str := none
  runtimeVersion : Option Str := none
  operation : Option Str := none
  dtype : Dtype := .f32
  shape : Shape := ⟨[], by decide, by simp⟩
  layout : Layout := .rowMajor
  endianness : Endianness := .little
  device : Option Str := none
  precision : Option Str := none
  quant : QuantKind := .none
  mutability : Mutability := .immutable
deriving DecidableEq

def writeOptStr : Option Str → Bytes
  | some s => Writer.bool true ++ Writer.str s
  | none => Writer.bool false

def readOptStr : Reader (Option Str) := do
  let present ← Reader.bool
  if present then
    let s ← Reader.str
    pure (some s)
  else pure none

/-- A `u64` count followed by the words. -/
def writeWords (ws : List UInt64) : Bytes :=
  Writer.u64 (UInt64.ofNat ws.length) ++ putAll Writer.u64 ws

namespace Layout

/-- The layout tag, with the stride vector behind it when there is one. -/
def encode (l : Layout) : Bytes :=
  Writer.u8 l.code ++ match l with
    | strided strides => writeWords strides.val
    | _ => []

end Layout

namespace CompatKey

/-- Encode the compatibility key into its canonical, versioned byte form. -/
def encode (k : CompatKey) : Bytes :=
  Writer.u8 canonVersion ++ (writeOptStr k.model ++ (writeOptStr k.modelRevision ++
  (writeOptStr k.runtimeVersion ++ (writeOptStr k.operation ++ (Writer.u8 k.dtype.code ++
  (writeWords k.shape.dims ++ (k.layout.encode ++ (Writer.u8 k.endianness.code ++
  (writeOptStr k.device ++ (writeOptStr k.precision ++ (Writer.u8 k.quant.code ++
  Writer.u8 k.mutability.code)))))))))))

/-- The layout part of the decoder, before validation. -/
def decodeLayout : Reader Layout := do
  let code ← Reader.u8
  if code = 0 then pure .rowMajor
  else if code = 1 then pure .colMajor
  else if code = 2 then do
    let n ← Reader.u64
    if n > UInt64.ofNat maxRank then Reader.fail (.protocol "compat strides exceed max")
    else do
      let strides ← getMany Reader.u64 n.toNat
      -- `strides` has `n` elements, so the bound always holds
      if h : strides.length < 2 ^ 64 then pure (.strided ⟨strides, h⟩)
      else Reader.fail (.protocol "compat strides exceed max")
  else Reader.fail (.protocol s!"unknown layout tag {code}")

/-- A checked step inside a reader. -/
def lift {α : Type} (x : Except Error α) : Reader α := fun data => x.map fun a => (a, data)

/-- The fields of the decoder, without the check that the input is used up. -/
def decodeFields : Reader CompatKey := do
  let version ← Reader.u8
  if version ≠ canonVersion then
    Reader.fail (.protocol s!"unsupported compat encoding version {version}")
  else do
    let model ← readOptStr
    let modelRevision ← readOptStr
    let runtimeVersion ← readOptStr
    let operation ← readOptStr
    let dtypeCode ← Reader.u8
    let dtype ← lift (Dtype.fromCode dtypeCode)
    let rank ← Reader.u64
    if rank > UInt64.ofNat maxRank then
      Reader.fail (.protocol s!"compat rank {rank} exceeds max")
    else do
      let dims ← getMany Reader.u64 rank.toNat
      if ∃ d ∈ dims, d > maxDim then Reader.fail (.protocol "compat dimension exceeds max")
      else do
        let shape ← lift (Shape.new dims)
        let layout ← decodeLayout
        lift (layout.validate shape)
        let endiannessCode ← Reader.u8
        let endianness ← lift (Endianness.fromCode endiannessCode)
        let device ← readOptStr
        let precision ← readOptStr
        let quantCode ← Reader.u8
        let quant ← lift (QuantKind.fromCode quantCode)
        let mutabilityCode ← Reader.u8
        let mutability ← lift (Mutability.fromCode mutabilityCode)
        pure { model, modelRevision, runtimeVersion, operation, dtype, shape, layout, endianness,
               device, precision, quant, mutability }

/-- Decode a compatibility key from its canonical byte form. -/
def decode (data : Bytes) : Except Error CompatKey := do
  let (k, rest) ← decodeFields data
  if rest ≠ [] then .error (.protocol "trailing bytes in compat encoding") else .ok k

/-- The compatibility identity: the SHA-256 digest of the canonical bytes. -/
def compatId (k : CompatKey) : Digest := hash k.encode

end CompatKey

/-! ### Addresses -/

/-- A logical tensor address: namespace, semantic cache key and generation. -/
structure Address where
  nameSpace : Str
  key : Str
  generation : UInt64
deriving DecidableEq

/-- A stable 256-bit object identity. -/
structure ObjectId where
  digest : Digest
deriving DecidableEq

namespace ObjectId

/-- The 64-character lower-case hex form used as a storage key and file name. -/
def toHex (oid : ObjectId) : Str := oid.digest.toHex

/-- Parse an object id from its hex form. -/
def fromHex (s : Str) : Except Error ObjectId := do
  let bytes ← parseHex s
  if h : bytes.length = 32 then .ok ⟨⟨bytes, h⟩⟩
  else .error (.invalidArgument "object id must be 32 bytes")

lemma toHex_injective : Function.Injective toHex := by
  rintro ⟨d⟩ ⟨d'⟩ h
  have hd : d = d' := Digest.toHex_injective h
  rw [hd]

@[simp] lemma fromHex_toHex (oid : ObjectId) : fromHex oid.toHex = .ok oid := by
  have h := parseHex_toHex oid.digest
  simp only [fromHex, toHex, h]
  change (if h : oid.digest.bytes.length = 32 then _ else _) = _
  rw [dif_pos oid.digest.length_bytes]

end ObjectId

namespace Address

/-- Encode the address into its canonical identity bytes. -/
def encode (a : Address) : Bytes :=
  Writer.u8 1 ++ (Writer.str a.nameSpace ++ (Writer.str a.key ++ Writer.u64 a.generation))

/-- The stable object identity: SHA-256 over the canonical address bytes. -/
def objectId (a : Address) : ObjectId := ⟨hash a.encode⟩

end Address

/-! ### The encodings are injective -/

lemma ofNat_injOn {m n : ℕ} (hm : m < 2 ^ 64) (hn : n < 2 ^ 64)
    (h : UInt64.ofNat m = UInt64.ofNat n) : m = n := by
  rw [← toNat_ofNat hm, ← toNat_ofNat hn, h]

lemma reads_optStr : Reads writeOptStr readOptStr := by
  intro a rest
  cases a with
  | none => exact bind_ok (reads_bool false rest)
  | some s =>
    rw [writeOptStr, List.append_assoc]
    refine (bind_ok (reads_bool true _)).trans ?_
    exact bind_ok (reads_str s rest)

lemma words_prefixFree {a b : List UInt64} {r s : Bytes} (ha : a.length < 2 ^ 64)
    (hb : b.length < 2 ^ 64) (h : writeWords a ++ r = writeWords b ++ s) : a = b ∧ r = s := by
  simp only [writeWords, List.append_assoc] at h
  obtain ⟨hcount, h⟩ := reads_u64.prefixFree _ _ _ _ h
  have hlen := ofNat_injOn ha hb hcount
  have hread := reads_u64.getMany a r
  rw [h, hlen, reads_u64.getMany b s] at hread
  simp only [Except.ok.injEq, Prod.mk.injEq] at hread
  exact ⟨hread.1.symm, hread.2.symm⟩

lemma Shape.length_dims_lt (s : Shape) : s.dims.length < 2 ^ 64 := by
  have := s.rank_le
  simp only [maxRank] at this
  omega

lemma Layout.encode_prefixFree : PrefixFree Layout.encode := by
  intro a b r s h
  simp only [Layout.encode, List.append_assoc] at h
  obtain ⟨hcode, h⟩ := reads_u8.prefixFree _ _ _ _ h
  match a, b with
  | .rowMajor, .rowMajor | .colMajor, .colMajor => exact ⟨rfl, h⟩
  | .strided v, .strided w =>
    obtain ⟨hvw, hrs⟩ := words_prefixFree v.small w.small h
    obtain ⟨v, hv⟩ := v
    obtain ⟨w, hw⟩ := w
    cases hvw
    exact ⟨rfl, hrs⟩
  | .rowMajor, .colMajor | .rowMajor, .strided _ | .colMajor, .rowMajor | .colMajor, .strided _
  | .strided _, .rowMajor | .strided _, .colMajor => exact absurd hcode (by simp [Layout.code])

lemma code_injective {α : Type} {code : α → UInt8} {fromCode : UInt8 → Except Error α}
    (h : ∀ a, fromCode (code a) = .ok a) : Function.Injective code := by
  intro a b hab
  have ha := h a
  rw [hab, h b] at ha
  exact (Except.ok.inj ha).symm

/-- Distinct compatibility keys have distinct canonical encodings. -/
theorem CompatKey.encode_injective : Function.Injective CompatKey.encode := by
  intro a b h
  have h : a.encode ++ [] = b.encode ++ [] := by rw [h]
  simp only [encode, List.append_assoc] at h
  obtain ⟨-, h⟩ := reads_u8.prefixFree _ _ _ _ h
  obtain ⟨hmodel, h⟩ := reads_optStr.prefixFree _ _ _ _ h
  obtain ⟨hrevision, h⟩ := reads_optStr.prefixFree _ _ _ _ h
  obtain ⟨hruntime, h⟩ := reads_optStr.prefixFree _ _ _ _ h
  obtain ⟨hoperation, h⟩ := reads_optStr.prefixFree _ _ _ _ h
  obtain ⟨hdtype, h⟩ := reads_u8.prefixFree _ _ _ _ h
  obtain ⟨hdims, h⟩ := words_prefixFree a.shape.length_dims_lt b.shape.length_dims_lt h
  obtain ⟨hlayout, h⟩ := Layout.encode_prefixFree _ _ _ _ h
  obtain ⟨hendianness, h⟩ := reads_u8.prefixFree _ _ _ _ h
  obtain ⟨hdevice, h⟩ := reads_optStr.prefixFree _ _ _ _ h
  obtain ⟨hprecision, h⟩ := reads_optStr.prefixFree _ _ _ _ h
  obtain ⟨hquant, h⟩ := reads_u8.prefixFree _ _ _ _ h
  obtain ⟨hmutability, -⟩ := reads_u8.prefixFree _ _ _ _ h
  have hdtype := code_injective Dtype.fromCode_code hdtype
  have hendianness := code_injective Endianness.fromCode_code hendianness
  have hquant := code_injective QuantKind.fromCode_code hquant
  have hmutability := code_injective Mutability.fromCode_code hmutability
  have hshape : a.shape = b.shape := by
    cases ha : a.shape
    cases hb : b.shape
    simp only [ha, hb] at hdims
    simp only [hdims]
  cases a
  cases b
  simp_all

/-- Distinct addresses have distinct canonical encodings. -/
theorem Address.encode_injective : Function.Injective Address.encode := by
  intro a b h
  have h : a.encode ++ [] = b.encode ++ [] := by rw [h]
  simp only [encode, List.append_assoc] at h
  obtain ⟨-, h⟩ := reads_u8.prefixFree _ _ _ _ h
  obtain ⟨hns, h⟩ := reads_str.prefixFree _ _ _ _ h
  obtain ⟨hkey, h⟩ := reads_str.prefixFree _ _ _ _ h
  obtain ⟨hgen, -⟩ := reads_u64.prefixFree _ _ _ _ h
  cases a
  cases b
  simp_all

/-! ### Decoding what was encoded -/

/-- The strides of a layout, none for the contiguous ones. -/
def Layout.strides : Layout → List UInt64
  | .strided v => v.val
  | _ => []

lemma decodeLayout_encode {l : Layout} (h : l.strides.length ≤ maxRank) (rest : Bytes) :
    CompatKey.decodeLayout (l.encode ++ rest) = .ok (l, rest) := by
  match l with
  | .rowMajor => exact bind_ok (reads_u8 0 rest)
  | .colMajor => exact bind_ok (reads_u8 1 rest)
  | .strided ⟨v, hv⟩ =>
    have hle : ¬UInt64.ofNat v.length > UInt64.ofNat maxRank := by
      simp only [gt_iff_lt, UInt64.lt_iff_toNat_lt, not_lt, toNat_ofNat hv]
      exact h
    rw [Layout.encode, List.append_assoc]
    refine (bind_ok (reads_u8 2 _)).trans ?_
    simp only [writeWords, List.append_assoc]
    refine (bind_ok (reads_u64 _ _)).trans ?_
    rw [if_neg hle, toNat_ofNat hv]
    refine (bind_ok (reads_u64.getMany v rest)).trans ?_
    rw [dif_pos hv]
    rfl

lemma decodeLayout_encode_long {l : Layout} (h : ¬l.strides.length ≤ maxRank) (rest : Bytes) :
    ∃ e, CompatKey.decodeLayout (l.encode ++ rest) = .error e := by
  match l with
  | .rowMajor | .colMajor => exact absurd (Nat.zero_le _) h
  | .strided ⟨v, hv⟩ =>
    have hgt : UInt64.ofNat v.length > UInt64.ofNat maxRank := by
      simp only [gt_iff_lt, UInt64.lt_iff_toNat_lt, toNat_ofNat hv]
      exact not_le.mp h
    refine ⟨.protocol "compat strides exceed max", ?_⟩
    rw [Layout.encode, List.append_assoc]
    refine (bind_ok (reads_u8 2 _)).trans ?_
    simp only [writeWords, List.append_assoc]
    refine (bind_ok (reads_u64 _ _)).trans ?_
    rw [if_pos hgt]
    rfl

lemma Layout.strides_le_of_validate {l : Layout} {shape : Shape}
    (h : l.validate shape = .ok ()) : l.strides.length ≤ maxRank := by
  match l with
  | .rowMajor | .colMajor => exact Nat.zero_le _
  | .strided v =>
    simp only [validate] at h
    split at h
    · cases h
    · rename_i hlen
      rw [strides, not_ne_iff.mp hlen]
      exact shape.rank_le

namespace CompatKey

/-- What the decoder reads after the layout. -/
def decodeTail (k : CompatKey) : Reader CompatKey := do
  lift (k.layout.validate k.shape)
  let endiannessCode ← Reader.u8
  let endianness ← lift (Endianness.fromCode endiannessCode)
  let device ← readOptStr
  let precision ← readOptStr
  let quantCode ← Reader.u8
  let quant ← lift (QuantKind.fromCode quantCode)
  let mutabilityCode ← Reader.u8
  let mutability ← lift (Mutability.fromCode mutabilityCode)
  pure { k with endianness, device, precision, quant, mutability }

lemma lift_ok {α : Type} {x : Except Error α} {a : α} (h : x = .ok a) (data : Bytes) :
    lift x data = .ok (a, data) := by
  rw [h]
  rfl

/-- Up to the layout, decoding an encoding gives the fields back. -/
lemma decodeFields_encode (k : CompatKey) :
    decodeFields k.encode = (decodeLayout >>= fun layout => decodeTail { k with layout })
      (k.layout.encode ++ (Writer.u8 k.endianness.code ++ (writeOptStr k.device ++
        (writeOptStr k.precision ++ (Writer.u8 k.quant.code ++ Writer.u8 k.mutability.code))))) := by
  have hrank : ¬UInt64.ofNat k.shape.dims.length > UInt64.ofNat maxRank := by
    simp only [gt_iff_lt, UInt64.lt_iff_toNat_lt, not_lt,
      toNat_ofNat k.shape.length_dims_lt]
    exact k.shape.rank_le
  have hdims : ¬∃ d ∈ k.shape.dims, d > maxDim := by
    rintro ⟨d, hd, hgt⟩
    exact absurd (k.shape.dims_le d hd) (UInt64.not_le.mpr hgt)
  rw [encode]
  refine (bind_ok (reads_u8 canonVersion _)).trans ?_
  rw [if_neg (by simp)]
  refine (bind_ok (reads_optStr _ _)).trans ?_
  refine (bind_ok (reads_optStr _ _)).trans ?_
  refine (bind_ok (reads_optStr _ _)).trans ?_
  refine (bind_ok (reads_optStr _ _)).trans ?_
  refine (bind_ok (reads_u8 _ _)).trans ?_
  refine (bind_ok (lift_ok (Dtype.fromCode_code _) _)).trans ?_
  simp only [writeWords, List.append_assoc]
  refine (bind_ok (reads_u64 _ _)).trans ?_
  rw [if_neg hrank, toNat_ofNat k.shape.length_dims_lt]
  refine (bind_ok (reads_u64.getMany _ _)).trans ?_
  rw [if_neg hdims]
  refine (bind_ok (lift_ok k.shape.new_dims _)).trans ?_
  rfl

lemma decodeTail_encode {k : CompatKey} (h : k.layout.validate k.shape = .ok ()) :
    decodeTail k (Writer.u8 k.endianness.code ++ (writeOptStr k.device ++
        (writeOptStr k.precision ++ (Writer.u8 k.quant.code ++ Writer.u8 k.mutability.code))))
      = .ok (k, []) := by
  refine (bind_ok (lift_ok h _)).trans ?_
  refine (bind_ok (reads_u8 _ _)).trans ?_
  refine (bind_ok (lift_ok (Endianness.fromCode_code _) _)).trans ?_
  refine (bind_ok (reads_optStr _ _)).trans ?_
  refine (bind_ok (reads_optStr _ _)).trans ?_
  refine (bind_ok (reads_u8 _ _)).trans ?_
  refine (bind_ok (lift_ok (QuantKind.fromCode_code _) _)).trans ?_
  rw [← List.append_nil (Writer.u8 k.mutability.code)]
  refine (bind_ok (reads_u8 _ _)).trans ?_
  refine (bind_ok (lift_ok (Mutability.fromCode_code _) _)).trans ?_
  rfl

/-- A key with a valid layout is decoded exactly. -/
theorem decode_encode {k : CompatKey} (h : k.layout.validate k.shape = .ok ()) :
    decode k.encode = .ok k := by
  have hfields : decodeFields k.encode = .ok (k, []) := by
    rw [decodeFields_encode]
    refine (bind_ok (decodeLayout_encode (Layout.strides_le_of_validate h) _)).trans ?_
    exact decodeTail_encode h
  simp only [decode, hfields]
  rfl

/-- A key whose layout is not valid for its shape is refused by the decoder. -/
theorem decode_encode_invalid {k : CompatKey} (h : k.layout.validate k.shape ≠ .ok ()) :
    ∃ e, decode k.encode = .error e := by
  have hfields : ∃ e, decodeFields k.encode = .error e := by
    rw [decodeFields_encode]
    by_cases hlen : k.layout.strides.length ≤ maxRank
    · cases hv : k.layout.validate k.shape with
      | ok u => exact absurd hv h
      | error e =>
        refine ⟨e, (bind_ok (decodeLayout_encode hlen _)).trans ?_⟩
        change (lift (k.layout.validate k.shape) >>= _) _ = _
        rw [hv]
        rfl
    · obtain ⟨e, he⟩ := decodeLayout_encode_long hlen
        (Writer.u8 k.endianness.code ++ (writeOptStr k.device ++
          (writeOptStr k.precision ++ (Writer.u8 k.quant.code ++ Writer.u8 k.mutability.code))))
      refine ⟨e, ?_⟩
      change (decodeLayout _ >>= fun p => decodeTail { k with layout := p.1 } p.2) = _
      rw [he]
      rfl
  obtain ⟨e, he⟩ := hfields
  exact ⟨e, by simp only [decode, he]; rfl⟩

/-! ### Nothing else is decoded -/

lemma lift_eq_ok {α : Type} {x : Except Error α} {a : α} {data rest : Bytes}
    (h : lift x data = .ok (a, rest)) : x = .ok a ∧ rest = data := by
  cases x with
  | error e => cases h
  | ok b =>
    cases h
    exact ⟨rfl, rfl⟩

/-- A checked step neither consumes nor changes the input. -/
lemma lift_bind {α β : Type} {x : Except Error α} {f : α → Reader β} {data rest : Bytes} {b : β}
    (h : (lift x >>= f) data = .ok (b, rest)) : ∃ a, x = .ok a ∧ f a data = .ok (b, rest) := by
  obtain ⟨a, mid, hlift, h⟩ := bind_eq_ok h
  obtain ⟨hx, hmid⟩ := lift_eq_ok hlift
  exact ⟨a, hx, hmid ▸ h⟩

lemma canonical_optStr : Canonical writeOptStr readOptStr := by
  intro input a rest h
  obtain ⟨present, mid, hin, h⟩ := canonical_bool.bind h
  cases present with
  | false =>
    cases h
    exact hin
  | true =>
    obtain ⟨s, mid', hmid, h⟩ := canonical_str.bind h
    cases h
    rw [hin, hmid, writeOptStr, List.append_assoc]

/-- The count and the words read after it are the printed form of the words. -/
lemma canonical_words {β : Type} {n : UInt64} {f : List UInt64 → Reader β} {input mid rest : Bytes}
    {b : β} (hin : input = Writer.u64 n ++ mid)
    (h : (getMany Reader.u64 n.toNat >>= f) mid = .ok (b, rest)) :
    ∃ ws mid', input = writeWords ws ++ mid' ∧ ws.length = n.toNat ∧ f ws mid' = .ok (b, rest) := by
  obtain ⟨ws, mid', hmany, h⟩ := bind_eq_ok h
  obtain ⟨hlen, hmid⟩ := canonical_u64.getMany _ _ _ _ hmany
  refine ⟨ws, mid', ?_, hlen, h⟩
  rw [hin, hmid, writeWords, hlen, UInt64.ofNat_toNat, List.append_assoc]

lemma canonical_layout : Canonical Layout.encode decodeLayout := by
  intro input a rest h
  obtain ⟨code, mid, hin, h⟩ := canonical_u8.bind h
  split_ifs at h with hrow hcol hstrided
  · cases h
    rw [hin, hrow]
    rfl
  · cases h
    rw [hin, hcol]
    rfl
  · obtain ⟨n, mid', hmid, h⟩ := canonical_u64.bind h
    split_ifs at h with hbound
    · cases h
    · obtain ⟨strides, mid'', hwords, -, h⟩ := canonical_words hmid h
      split_ifs at h with hsmall
      · cases h
        rw [hin, hwords, hstrided, Layout.encode, List.append_assoc]
        rfl
      · cases h
  · cases h

/-- Whatever the field decoder accepts is the encoding of the key it returns, whose layout is
valid for its shape. -/
lemma canonical_fields {input rest : Bytes} {k : CompatKey}
    (h : decodeFields input = .ok (k, rest)) :
    input = k.encode ++ rest ∧ k.layout.validate k.shape = .ok () := by
  obtain ⟨version, _, hversion, h⟩ := canonical_u8.bind h
  split_ifs at h with hcanon
  · cases h
  · obtain ⟨model, _, hmodel, h⟩ := canonical_optStr.bind h
    obtain ⟨modelRevision, _, hrevision, h⟩ := canonical_optStr.bind h
    obtain ⟨runtimeVersion, _, hruntime, h⟩ := canonical_optStr.bind h
    obtain ⟨operation, _, hoperation, h⟩ := canonical_optStr.bind h
    obtain ⟨dtypeCode, _, hdtypeCode, h⟩ := canonical_u8.bind h
    obtain ⟨dtype, hdtype, h⟩ := lift_bind h
    obtain ⟨rank, _, hrank, h⟩ := canonical_u64.bind h
    split_ifs at h with hbound
    · cases h
    · obtain ⟨dims, _, hdims, -, h⟩ := canonical_words hrank h
      split_ifs at h with hlarge
      · cases h
      · obtain ⟨shape, hshape, h⟩ := lift_bind h
        obtain ⟨layout, _, hlayout, h⟩ := canonical_layout.bind h
        obtain ⟨_, hvalid, h⟩ := lift_bind h
        obtain ⟨endiannessCode, _, hendiannessCode, h⟩ := canonical_u8.bind h
        obtain ⟨endianness, hendianness, h⟩ := lift_bind h
        obtain ⟨device, _, hdevice, h⟩ := canonical_optStr.bind h
        obtain ⟨precision, _, hprecision, h⟩ := canonical_optStr.bind h
        obtain ⟨quantCode, _, hquantCode, h⟩ := canonical_u8.bind h
        obtain ⟨quant, hquant, h⟩ := lift_bind h
        obtain ⟨mutabilityCode, _, hmutabilityCode, h⟩ := canonical_u8.bind h
        obtain ⟨mutability, hmutability, h⟩ := lift_bind h
        cases h
        refine ⟨?_, hvalid⟩
        simp only [encode, List.append_assoc, Dtype.code_of_fromCode hdtype,
          Shape.dims_of_new hshape, Endianness.code_of_fromCode hendianness,
          QuantKind.code_of_fromCode hquant, Mutability.code_of_fromCode hmutability]
        rw [hversion, not_ne_iff.mp hcanon, hmodel, hrevision, hruntime, hoperation, hdtypeCode,
          hdims, hlayout, hendiannessCode, hdevice, hprecision, hquantCode, hmutabilityCode]

/-- Only canonical encodings of keys with a valid layout are decoded. -/
lemma encode_of_decode {b : Bytes} {k : CompatKey} (h : decode b = .ok k) :
    k.encode = b ∧ k.layout.validate k.shape = .ok () := by
  obtain ⟨⟨k', rest⟩, hfields, hrest⟩ := except_bind_eq_ok h
  obtain ⟨hencode, hvalid⟩ := canonical_fields hfields
  dsimp only at hrest
  split_ifs at hrest with hnil
  cases hrest
  rw [not_ne_iff.mp hnil, List.append_nil] at hencode
  exact ⟨hencode.symm, hvalid⟩

/-- The codec of compatibility keys is exact: encoding is undone on the keys whose layout fits
their shape and on no others, only canonical bytes are decoded, and so the identity of a decoded
key is the digest of the bytes it came from. -/
theorem codec_exact :
    (∀ k : CompatKey, (decode k.encode = .ok k ↔ k.layout.validate k.shape = .ok ()) ∧
      (k.layout.validate k.shape ≠ .ok () → ∃ e, decode k.encode = .error e)) ∧
    ∀ (b : Bytes) (k : CompatKey), decode b = .ok k →
      k.encode = b ∧ k.layout.validate k.shape = .ok () ∧ k.compatId = hash b := by
  constructor
  · intro k
    refine ⟨⟨fun h => ?_, decode_encode⟩, decode_encode_invalid⟩
    by_contra hinvalid
    obtain ⟨e, he⟩ := decode_encode_invalid hinvalid
    rw [he] at h
    cases h
  · intro b k h
    obtain ⟨hencode, hvalid⟩ := encode_of_decode h
    exact ⟨hencode, hvalid, by rw [compatId, hencode]⟩

end CompatKey

end TensorCache
