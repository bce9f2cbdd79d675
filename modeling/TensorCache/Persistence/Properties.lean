import Mathlib.Data.List.Infix
import TensorCache.Persistence.Basic

/-!
# Manifests, names and files

A manifest is read back exactly as it was written, provided the layout of the compatibility key
is valid: the writer does not look at the layout, the reader validates it. The names of blocks,
manifests and temporary files never coincide.
-/

namespace TensorCache

open Codec DurableStep

/-! ### Manifests -/

lemma reads_blockRef : Reads writeBlockRef readBlockRef := by
  intro b rest
  have hlen : b.contentHash.bytes.length < 2 ^ 64 := by
    rw [b.contentHash.length_bytes]
    decide
  rw [writeBlockRef, readBlockRef]
  simp only [List.append_assoc]
  refine (bind_ok (reads_bytes hlen _)).trans ?_
  rw [dif_pos b.contentHash.length_bytes]
  refine (bind_ok (reads_u64 _ _)).trans ?_
  refine (bind_ok (reads_u64 _ _)).trans ?_
  refine (bind_ok (reads_u32 _ _)).trans ?_
  rfl

/-- What the manifest reader does after the compatibility key. -/
def readManifestTail (m : PersistEntryMeta) : Reader PersistEntryMeta := do
  let byteLen ← Reader.u64
  let numel ← Reader.u64
  let createdNs ← Reader.u64
  let blockCount ← Reader.u64
  if blockCount.toNat > maxBlocksPerTensor then
    Reader.fail (.persistence "manifest block count exceeds maximum") else do
  let blocks ← getMany readBlockRef blockCount.toNat
  pure { m with byteLen, numel, createdNs, blocks }

/-- Up to the compatibility key, reading a manifest body gives the fields back. -/
lemma readManifest_body {m : PersistEntryMeta} (henc : m.compat.encode.length < 2 ^ 64) :
    readManifest (manifestBody m)
      = (CompatKey.lift (CompatKey.decode m.compat.encode) >>= fun compat =>
          readManifestTail { m with compat })
        (Writer.u64 m.byteLen ++ (Writer.u64 m.numel ++ (Writer.u64 m.createdNs ++
          (Writer.u64 (UInt64.ofNat m.blocks.length) ++ putAll writeBlockRef m.blocks)))) := by
  rw [manifestBody]
  refine (bind_ok (reads_u32 _ _)).trans ?_
  rw [if_neg (by simp)]
  refine (bind_ok (reads_u8 _ _)).trans ?_
  rw [if_neg (by simp)]
  refine (bind_ok (reads_str _ _)).trans ?_
  refine (bind_ok (reads_str _ _)).trans ?_
  refine (bind_ok (reads_str _ _)).trans ?_
  refine (bind_ok (reads_u64 _ _)).trans ?_
  refine (bind_ok (reads_bytes henc _)).trans ?_
  rfl

lemma readManifestTail_body {m : PersistEntryMeta} (hfew : m.blocks.length ≤ maxBlocksPerTensor) :
    readManifestTail m (Writer.u64 m.byteLen ++ (Writer.u64 m.numel ++
        (Writer.u64 m.createdNs ++ (Writer.u64 (UInt64.ofNat m.blocks.length) ++
          putAll writeBlockRef m.blocks)))) = .ok (m, []) := by
  have hcount : (UInt64.ofNat m.blocks.length).toNat = m.blocks.length :=
    toNat_ofNat (lt_of_le_of_lt hfew (by decide))
  refine (bind_ok (reads_u64 _ _)).trans ?_
  refine (bind_ok (reads_u64 _ _)).trans ?_
  refine (bind_ok (reads_u64 _ _)).trans ?_
  refine (bind_ok (reads_u64 _ _)).trans ?_
  rw [hcount, if_neg (not_lt.mpr hfew)]
  have hblocks := reads_blockRef.getMany m.blocks []
  rw [List.append_nil] at hblocks
  refine (bind_ok hblocks).trans ?_
  rfl

/-- Splitting off the anchor. -/
lemma decodeManifest_encode_eq (m : PersistEntryMeta) :
    decodeManifest (encodeManifest m) = (readManifest (manifestBody m) >>= fun p =>
      if p.2 ≠ [] then .error (.persistence "trailing bytes in manifest")
      else checkManifest p.1 >>= fun _ => .ok p.1) := by
  have hlen : (encodeManifest m).length = (manifestBody m).length + 32 := by
    rw [encodeManifest, List.length_append, Digest.length_bytes]
  have hsub : (encodeManifest m).length - 32 = (manifestBody m).length := by omega
  rw [decodeManifest, if_neg (by omega)]
  simp only [hsub]
  rw [encodeManifest, List.take_left, List.drop_left, if_neg (by simp)]

/-- With a valid layout, only the checks remain. -/
lemma decodeManifest_encode_of_valid {m : PersistEntryMeta}
    (henc : m.compat.encode.length < 2 ^ 64)
    (hlayout : m.compat.layout.validate m.compat.shape = .ok ())
    (hfew : m.blocks.length ≤ maxBlocksPerTensor) :
    decodeManifest (encodeManifest m) = (checkManifest m >>= fun _ => .ok m) := by
  have hread : readManifest (manifestBody m) = .ok (m, []) := by
    rw [readManifest_body henc]
    refine (bind_ok (CompatKey.lift_ok (CompatKey.decode_encode hlayout) _)).trans ?_
    exact readManifestTail_body hfew
  rw [decodeManifest_encode_eq, hread]
  rfl

/-- A manifest with a valid layout is decoded exactly. -/
theorem decodeManifest_encode {m : PersistEntryMeta} (henc : m.compat.encode.length < 2 ^ 64)
    (hlayout : m.compat.layout.validate m.compat.shape = .ok ())
    (hfew : m.blocks.length ≤ maxBlocksPerTensor) (hcheck : checkManifest m = .ok ()) :
    decodeManifest (encodeManifest m) = .ok m := by
  rw [decodeManifest_encode_of_valid henc hlayout hfew, hcheck]
  rfl

/-- A manifest whose layout is not valid for its shape is refused. -/
theorem decodeManifest_encode_invalid {m : PersistEntryMeta}
    (henc : m.compat.encode.length < 2 ^ 64)
    (hlayout : m.compat.layout.validate m.compat.shape ≠ .ok ()) :
    ∃ e, decodeManifest (encodeManifest m) = .error e := by
  obtain ⟨e, he⟩ := CompatKey.decode_encode_invalid hlayout
  refine ⟨e, ?_⟩
  have hread : readManifest (manifestBody m) = .error e := by
    rw [readManifest_body henc, he]
    rfl
  rw [decodeManifest_encode_eq, hread]
  rfl

/-- Whatever comes out of an encoded manifest is the manifest. -/
lemma eq_of_decodeManifest_encode {m m' : PersistEntryMeta}
    (henc : m.compat.encode.length < 2 ^ 64) (hfew : m.blocks.length ≤ maxBlocksPerTensor)
    (h : decodeManifest (encodeManifest m) = .ok m') :
    m' = m ∧ m.compat.layout.validate m.compat.shape = .ok () := by
  by_cases hlayout : m.compat.layout.validate m.compat.shape = .ok ()
  · refine ⟨?_, hlayout⟩
    rw [decodeManifest_encode_of_valid henc hlayout hfew] at h
    cases hc : checkManifest m with
    | error e => rw [hc] at h; cases h
    | ok u => rw [hc] at h; cases h; rfl
  · obtain ⟨e, he⟩ := decodeManifest_encode_invalid henc hlayout
    rw [he] at h
    cases h

/-- What is decoded is a body with its anchor behind it, read to the end, and has passed the
checks. -/
lemma decodeManifest_eq_ok {data : Bytes} {m : PersistEntryMeta}
    (h : decodeManifest data = .ok m) :
    ∃ body, data = body ++ (hash body).bytes ∧ readManifest body = .ok (m, []) ∧
      checkManifest m = .ok () := by
  unfold decodeManifest at h
  split_ifs at h with hlen
  dsimp only at h
  split_ifs at h with hanchor
  obtain ⟨⟨m', rest⟩, hread, h⟩ := except_bind_eq_ok h
  dsimp only at h
  split_ifs at h with hrest
  obtain ⟨_, hcheck, h⟩ := except_bind_eq_ok h
  cases h
  refine ⟨data.take (data.length - 32), ?_, ?_, hcheck⟩
  · rw [not_ne_iff.mp hanchor, List.take_append_drop]
  · rw [hread, not_ne_iff.mp hrest]

/-- A decoded manifest has passed the checks. -/
lemma checkManifest_of_decode {data : Bytes} {m : PersistEntryMeta}
    (h : decodeManifest data = .ok m) : checkManifest m = .ok () := by
  obtain ⟨_, _, _, hcheck⟩ := decodeManifest_eq_ok h
  exact hcheck

lemma checkManifest_eq_ok {m : PersistEntryMeta} :
    checkManifest m = .ok () ↔
      m.compat.shape.byteLen m.compat.dtype.byteSize = .ok m.byteLen ∧
      m.compat.shape.numel = .ok m.numel ∧ validateBlockList m.blocks m.byteLen = .ok () := by
  unfold checkManifest
  cases hb : m.compat.shape.byteLen m.compat.dtype.byteSize with
  | error e => simp [bind, Except.bind]
  | ok b =>
    change (if m.byteLen ≠ b then _ else _) = _ ↔ _
    split_ifs with hne
    · simp [Ne.symm hne]
    · cases hn : m.compat.shape.numel with
      | error e => simp [bind, Except.bind]
      | ok n =>
        change (if m.numel ≠ n then _ else _) = _ ↔ _
        split_ifs with hne'
        · simp [Ne.symm hne']
        · simp [not_ne_iff.mp hne, not_ne_iff.mp hne']

/-! ### The manifest format is exact -/

lemma canonical_blockRef : Canonical writeBlockRef readBlockRef := by
  intro input b rest h
  obtain ⟨hashBytes, _, hhash, h⟩ := canonical_bytes.bind h
  split_ifs at h with hlen
  · obtain ⟨offset, _, hoffset, h⟩ := canonical_u64.bind h
    obtain ⟨len, _, hsize, h⟩ := canonical_u64.bind h
    obtain ⟨crc, _, hcrc, h⟩ := canonical_u32.bind h
    cases h
    simp only [writeBlockRef, List.append_assoc]
    rw [hhash, hoffset, hsize, hcrc]
  · cases h

/-- The reader of bodies accepts only printed bodies, and the layout of what it returns is
valid. -/
lemma canonical_manifest {input rest : Bytes} {m : PersistEntryMeta}
    (h : readManifest input = .ok (m, rest)) :
    input = manifestBody m ++ rest ∧ m.compat.layout.validate m.compat.shape = .ok () := by
  obtain ⟨magic, _, hmagic, h⟩ := canonical_u32.bind h
  split_ifs at h with hmagicEq
  · cases h
  obtain ⟨version, _, hversion, h⟩ := canonical_u8.bind h
  split_ifs at h with hversionEq
  · cases h
  obtain ⟨objectId, _, hobject, h⟩ := canonical_str.bind h
  obtain ⟨nameSpace, _, hnameSpace, h⟩ := canonical_str.bind h
  obtain ⟨key, _, hkey, h⟩ := canonical_str.bind h
  obtain ⟨generation, _, hgeneration, h⟩ := canonical_u64.bind h
  obtain ⟨compatBytes, _, hcompatBytes, h⟩ := canonical_bytes.bind h
  obtain ⟨compat, hcompat, h⟩ := CompatKey.lift_bind h
  obtain ⟨byteLen, _, hbyteLen, h⟩ := canonical_u64.bind h
  obtain ⟨numel, _, hnumel, h⟩ := canonical_u64.bind h
  obtain ⟨createdNs, _, hcreated, h⟩ := canonical_u64.bind h
  obtain ⟨blockCount, _, hcount, h⟩ := canonical_u64.bind h
  split_ifs at h with hmany
  · cases h
  obtain ⟨blocks, _, hread, h⟩ := bind_eq_ok h
  obtain ⟨hlen, hblocks⟩ := canonical_blockRef.getMany _ _ _ _ hread
  obtain ⟨hencode, hvalid⟩ := CompatKey.encode_of_decode hcompat
  cases h
  refine ⟨?_, hvalid⟩
  simp only [manifestBody, List.append_assoc, hencode, hlen, UInt64.ofNat_toNat]
  rw [hmagic, not_ne_iff.mp hmagicEq, hversion, not_ne_iff.mp hversionEq, hobject, hnameSpace,
    hkey, hgeneration, hcompatBytes, hbyteLen, hnumel, hcreated, hcount, hblocks]

/-- The fields of a manifest agree with each other. -/
structure PersistEntryMeta.Consistent (m : PersistEntryMeta) : Prop where
  layout : m.compat.layout.validate m.compat.shape = .ok ()
  byteLen : m.compat.shape.byteLen m.compat.dtype.byteSize = .ok m.byteLen
  numel : m.compat.shape.numel = .ok m.numel
  blocks : validateBlockList m.blocks m.byteLen = .ok ()

/-- The manifest codec is exact. Consistent metadata is read back as it was written; the bound
says no more than that the encoded key is a byte vector. Conversely only the encodings of
consistent metadata are decoded. -/
theorem manifest_codec_exact :
    (∀ m : PersistEntryMeta, m.compat.encode.length < 2 ^ 64 → m.Consistent →
      decodeManifest (encodeManifest m) = .ok m) ∧
    ∀ (d : Bytes) (m : PersistEntryMeta), decodeManifest d = .ok m →
      encodeManifest m = d ∧ m.Consistent := by
  constructor
  · intro m hfits hm
    have hfew : m.blocks.length ≤ maxBlocksPerTensor := by
      have hblocks := hm.blocks
      unfold validateBlockList at hblocks
      split_ifs at hblocks with hmany
      exact not_lt.mp hmany
    apply decodeManifest_encode hfits hm.layout hfew
    exact checkManifest_eq_ok.mpr ⟨hm.byteLen, hm.numel, hm.blocks⟩
  · intro d m h
    obtain ⟨body, hd, hread, hcheck⟩ := decodeManifest_eq_ok h
    obtain ⟨hbody, hlayout⟩ := canonical_manifest hread
    obtain ⟨hbyteLen, hnumel, hblocks⟩ := checkManifest_eq_ok.mp hcheck
    rw [List.append_nil] at hbody
    refine ⟨?_, hlayout, hbyteLen, hnumel, hblocks⟩
    rw [hd, hbody, encodeManifest]

/-! ### Names -/

lemma isAsciiHexdigit_hexByte (b : UInt8) : (hexByte b).all isAsciiHexdigit = true := by
  revert b
  exact forall_uint8 (by decide +kernel)

lemma all_hex (d : Digest) : d.toHex.bytes.all isAsciiHexdigit = true := by
  rw [Digest.bytes_toHex]
  induction d.bytes with
  | nil => rfl
  | cons b bytes ih => rw [List.flatMap_cons, List.all_append, isAsciiHexdigit_hexByte, ih]; rfl

lemma hexPathValid_toHex (d : Digest) : hexPathValid d.toHex = true := by
  rw [hexPathValid, d.length_bytes_toHex, all_hex]
  rfl

lemma dot_notMem_hex (d : Digest) : (0x2e : UInt8) ∉ d.toHex.bytes := by
  intro h
  have := List.all_eq_true.mp (all_hex d) _ h
  revert this
  decide

/-- The file of a block. -/
def blockFile (d : Digest) : Path := ⟨.blocks, d.toHex.bytes⟩

/-- The manifest file of an object. -/
def manifestFile (oid : ObjectId) : Path := ⟨.manifests, oid.toHex.bytes ++ ascii ".manifest"⟩

lemma blockPath_eq (d : Digest) : blockPath d = .ok (blockFile d) := by
  rw [blockPath, hexPathValid_toHex, if_pos rfl]
  rfl

lemma manifestPath_eq (oid : ObjectId) : manifestPath oid.toHex = .ok (manifestFile oid) := by
  rw [manifestPath, ObjectId.toHex, hexPathValid_toHex, if_pos rfl]
  rfl

lemma blockFile_injective : Function.Injective blockFile := by
  intro d d' h
  exact Digest.toHex_injective (Str.bytes_injective (congrArg Path.name h))

lemma manifestFile_injective : Function.Injective manifestFile := by
  intro oid oid' h
  have hname : oid.toHex.bytes ++ ascii ".manifest" = oid'.toHex.bytes ++ ascii ".manifest" :=
    congrArg Path.name h
  exact ObjectId.toHex_injective (Str.bytes_injective (List.append_cancel_right hname))

lemma blockFile_ne_manifestFile (d : Digest) (oid : ObjectId) : blockFile d ≠ manifestFile oid := by
  intro h
  cases congrArg Path.dir h

lemma length_tmpPath (path : Path) (pid : ℕ) :
    path.name.length + 4 ≤ (tmpPath path pid).name.length := by
  have : (ascii ".tmp").length = 4 := rfl
  simp only [tmpPath, List.length_append]
  omega

lemma tmpPath_ne (path : Path) (pid : ℕ) : tmpPath path pid ≠ path := by
  intro h
  have := length_tmpPath path pid
  rw [h] at this
  omega

lemma tmpPath_ne_blockFile {path : Path} (pid : ℕ) (d : Digest)
    (h : path.dir = .blocks → path.name.length = 64) : tmpPath path pid ≠ blockFile d := by
  intro heq
  have hdir : path.dir = .blocks := congrArg Path.dir heq
  have hlen := congrArg (fun p => p.name.length) heq
  have := length_tmpPath path pid
  simp only [blockFile, d.length_bytes_toHex] at hlen
  have := h hdir
  omega

lemma extension_append {pre suf : Bytes} (hpre : pre ≠ []) (hsuf : (0x2e : UInt8) ∉ suf) :
    extension (pre ++ 0x2e :: suf) = some suf := by
  have hall : ∀ b ∈ suf.reverse, (decide (b ≠ 0x2e)) = true := by
    intro b hb
    have hb : b ∈ suf := List.mem_reverse.mp hb
    simpa using fun heq : b = 0x2e => hsuf (heq ▸ hb)
  have hext : ((pre ++ 0x2e :: suf).reverse.takeWhile (· ≠ 0x2e)).reverse = suf := by
    rw [List.reverse_append, List.reverse_cons, List.append_assoc,
      List.takeWhile_append_of_pos hall]
    simp
  have hlen : 0 < pre.length := List.length_pos_iff.mpr hpre
  simp only [extension, hext, List.length_append, List.length_cons]
  rw [if_pos (by omega)]

lemma extension_manifestFile (oid : ObjectId) :
    extension (manifestFile oid).name = some (ascii "manifest") := by
  have hname : (manifestFile oid).name = oid.toHex.bytes ++ 0x2e :: ascii "manifest" := rfl
  have hlen : oid.toHex.bytes.length = 64 := oid.digest.length_bytes_toHex
  rw [hname]
  refine extension_append (fun h => ?_) (by decide +kernel)
  rw [h] at hlen
  cases hlen

lemma dot_notMem_digits (pid : ℕ) :
    (0x2e : UInt8) ∉ (Nat.toDigits 10 pid).map fun c => UInt8.ofNat c.toNat := by
  intro h
  obtain ⟨c, hc, hdot⟩ := List.mem_map.mp h
  have hdigit := Nat.isDigit_of_mem_toDigits (by decide) (by decide) hc
  simp only [Char.isDigit, Bool.and_eq_true, decide_eq_true_eq, UInt32.le_iff_toNat_le] at hdigit
  have hlow : 48 ≤ c.toNat := hdigit.1
  have hhigh : c.toNat ≤ 57 := hdigit.2
  have := congrArg UInt8.toNat hdot
  rw [UInt8.toNat_ofNat'] at this
  simp only [UInt8.reduceToNat] at this
  omega

lemma extension_tmpPath {path : Path} (hpath : path.name ≠ []) (pid : ℕ) :
    extension (tmpPath path pid).name ≠ some (ascii "manifest") := by
  have hname : (tmpPath path pid).name = path.name ++ 0x2e ::
      (ascii "tmp" ++ (Nat.toDigits 10 pid).map fun c => UInt8.ofNat c.toNat) := rfl
  have hdot : (0x2e : UInt8) ∉
      ascii "tmp" ++ (Nat.toDigits 10 pid).map fun c => UInt8.ofNat c.toNat := by
    rw [List.mem_append, not_or]
    exact ⟨by decide +kernel, dot_notMem_digits pid⟩
  rw [hname, extension_append hpath hdot]
  intro h
  have hhead := congrArg List.head? (Option.some.inj h)
  revert hhead
  change some (0x74 : UInt8) = some 0x6d → False
  decide

lemma eq_of_append_dot {a b r s : Bytes} (hb : (0x2e : UInt8) ∉ b) (hs : (0x2e : UInt8) ∉ s)
    (h : a ++ 0x2e :: r = b ++ 0x2e :: s) : r = s := by
  rcases List.append_eq_append_iff.mp h with ⟨x, rfl, hx⟩ | ⟨x, rfl, hx⟩
  · cases x with
    | nil => exact (List.cons.inj hx).2
    | cons y x =>
      rw [← (List.cons.inj hx).1] at hb
      simp at hb
  · cases x with
    | nil => exact (List.cons.inj hx).2.symm
    | cons y x =>
      rw [(List.cons.inj hx).2] at hs
      simp at hs

/-- A name is no leftover if what follows each of its dots neither starts with `tmp` nor is
`bak`. -/
lemma isLeftover_eq_false {name : Bytes}
    (h : ∀ a r, name = a ++ 0x2e :: r → ¬ascii "tmp" <+: r ∧ r ≠ ascii "bak") :
    isLeftover name = false := by
  rw [isLeftover, Bool.and_eq_false_iff]
  right
  rw [Bool.or_eq_false_iff]
  refine ⟨?_, ?_⟩
  · rw [List.any_eq_false]
    intro t ht hpre
    obtain ⟨a, ha⟩ := (List.mem_tails _ _).mp ht
    obtain ⟨z, rfl⟩ := List.isPrefixOf_iff_prefix.mp hpre
    exact (h a (ascii "tmp" ++ z) ha.symm).1 (List.prefix_append _ _)
  · rw [Bool.eq_false_iff]
    intro hsuf
    obtain ⟨a, ha⟩ := List.isSuffixOf_iff_suffix.mp hsuf
    exact (h a (ascii "bak") ha.symm).2 rfl

lemma isLeftover_manifestFile (oid : ObjectId) : isLeftover (manifestFile oid).name = false := by
  refine isLeftover_eq_false fun a r h => ?_
  have hr : r = ascii "manifest" :=
    eq_of_append_dot (dot_notMem_hex oid.digest) (by decide +kernel) h.symm
  rw [hr]
  decide +kernel

lemma isLeftover_blockFile (d : Digest) : isLeftover (blockFile d).name = false := by
  refine isLeftover_eq_false fun a r h => absurd ?_ (dot_notMem_hex d)
  change (0x2e : UInt8) ∈ (blockFile d).name
  rw [h]
  simp

end TensorCache
