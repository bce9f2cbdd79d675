import TensorCache.Accounting
import TensorCache.Persistence.Files
import TensorCache.Storage.Arena

/-!
# The persistent tier

The reference counts of durable blocks, the storage counter, the byte budget and the store, with
the two things the runtime does to them: keeping a payload durably and dropping it again.
-/

namespace TensorCache

open Codec EStateM DurableStep

/-- The persistent part of the runtime state. -/
structure Durable where
  refs : HashMap Digest ℕ
  used : ℕ
  budget : Budget
  store : Option PersistentStore

namespace Durable

/-- Run a budget operation. -/
def onBudget {α : Type} (m : EStateM Error Budget α) : EStateM Error Durable α :=
  zoom Durable.budget (fun b d => { d with budget := b }) m

/-- Run a command of the store, if there is one. -/
def onStore {α : Type} (m : EStateM Error PersistentStore α) : EStateM Error Durable α := fun d =>
  match d.store with
  | none => .error (.persistence "no persistent tier configured") d
  | some st =>
    match m st with
    | .ok a st => .ok a { d with store := some st }
    | .error e st => .error e { d with store := some st }

/-- One more reference to a durable block; a new block counts against the storage in use. -/
def addRef (b : BlockRef) (d : Durable) : Durable :=
  match d.refs.lookup b.contentHash with
  | some n => { d with refs := d.refs.insert b.contentHash (n + 1) }
  | none => { d with refs := d.refs.insert b.contentHash 1, used := d.used + b.len.toNat }

/-- The loop body of the persistent branch of `add_placement`. -/
def persistBlock (io : IoFaults) (payload : Bytes) (b : BlockRef) :
    EStateM Error Durable PUnit := fun d =>
  match d.refs.lookup b.contentHash with
  | none =>
    (do let _ ← onStore (PersistentStore.putBlock io (slice payload b.offset.toNat b.len.toNat))
        modify (addRef b)) d
  | some _ => .ok ⟨⟩ (d.addRef b)

/-- The block list of a payload that is about to be kept, and the bytes that are new. -/
def plan (blockSize : ℕ) (byteLen : UInt64) (bytes : Bytes) (d : Durable) :
    Except Error (List BlockRef × ℕ) := do
  if d.store.isNone then .error (.persistence "no persistent tier configured")
  else do
    let blocks ← chunk bytes blockSize
    validateBlockList blocks byteLen
    let newStorage := newBytes (fun h => (d.refs.lookup h).isSome) blocks
    if newStorage > d.budget.free then
      .error (.admissionRejected "persistent tier capacity exceeded")
    else .ok (blocks, newStorage)

/-- The record that `keep` commits. -/
def metaOf (oid : ObjectId) (address : Address) (compat : CompatKey)
    (byteLen numel createdNs : UInt64) (blocks : List BlockRef) : PersistEntryMeta :=
  { objectId := oid.toHex, nameSpace := address.nameSpace, key := address.key,
    generation := address.generation, compat, byteLen, numel, createdNs, blocks }

/-- The persistent branch of `add_placement`, up to the new placement. -/
def keep (io : IoFaults) (blockSize : ℕ) (oid : ObjectId) (address : Address)
    (compat : CompatKey) (byteLen createdNs : UInt64) (bytes : Bytes) :
    EStateM Error Durable PUnit := do
  let d ← get
  let (blocks, newStorage) ← EStateM.ofExcept (d.plan blockSize byteLen bytes)
  onBudget (Budget.reserve newStorage)
  blocks.forM (persistBlock io bytes)
  onBudget (Budget.commitReserve newStorage)
  let numel ← EStateM.ofExcept compat.shape.numel
  onStore (PersistentStore.writeManifest io
    (metaOf oid address compat byteLen numel createdNs blocks))

/-- Forget a block that has no references left. -/
def freeRef (b : BlockRef) (d : Durable) : Durable :=
  { d with refs := d.refs.erase b.contentHash, used := d.used - b.len.toNat }

/-- The loop body of the persistent branch of `remove_placement`. -/
def dropBlock (io : IoFaults) (b : BlockRef) : EStateM Error Durable PUnit := fun d =>
  match d.refs.lookup b.contentHash with
  | none => .ok ⟨⟩ d
  | some n =>
    if n - 1 = 0 then
      (do ignoring (onStore (PersistentStore.removeBlock io b.contentHash))
          modify (freeRef b)) d
    else .ok ⟨⟩ { d with refs := d.refs.insert b.contentHash (n - 1) }

/-- The persistent branch of `remove_placement`. -/
def drop (io : IoFaults) (blocks : List BlockRef) (oid : ObjectId) :
    EStateM Error Durable PUnit := do
  blocks.forM (dropBlock io)
  ignoring (onStore (PersistentStore.removeManifest io oid.toHex))

/-- The contents of a file of the store. -/
def file (d : Durable) (path : Path) : Option Bytes :=
  match d.store with
  | some st => st.disk.lookup path
  | none => none

/-- The number of references to a durable block. -/
def count (d : Durable) (h : Digest) : ℕ := (d.refs.lookup h).getD 0

end Durable

/-! ### What the files are -/

/-- The files that recovery reads. -/
def IsManifest (path : Path) : Prop :=
  path.dir = .manifests ∧ extension path.name = some (ascii "manifest")

/-- A block file holds the block of `S` it is named after; a manifest that can be decoded
satisfies `M`. -/
def FileOk (S : Set Bytes) (M : Path → PersistEntryMeta → Prop) (path : Path) (c : Bytes) : Prop :=
  (∀ h, path = blockFile h → hash c = h ∧ c ∈ S) ∧
    (IsManifest path → ∀ m, decodeManifest c = .ok m → M path m)

section FileOk

variable {S : Set Bytes} {M : Path → PersistEntryMeta → Prop}

lemma not_isManifest_blockFile (h : Digest) : ¬IsManifest (blockFile h) := by
  rintro ⟨hdir, -⟩
  cases hdir

lemma isManifest_manifestFile (oid : ObjectId) : IsManifest (manifestFile oid) :=
  ⟨rfl, extension_manifestFile oid⟩

lemma fileOk_block {b : Bytes} (hb : b ∈ S) : FileOk S M (blockFile (hash b)) b := by
  refine ⟨fun h hh => ?_, fun hm => absurd hm (not_isManifest_blockFile _)⟩
  exact ⟨blockFile_injective hh, hb⟩

lemma fileOk_tmp_block (h : Digest) (pid : ℕ) (c : Bytes) :
    FileOk S M (tmpPath (blockFile h) pid) c := by
  refine ⟨fun h' hh => absurd hh (tmpPath_ne_blockFile pid h' fun _ => ?_), ?_⟩
  · exact h.length_bytes_toHex
  · rintro ⟨hdir, -⟩
    cases hdir

lemma not_isManifest_tmp (path : Path) (hpath : path.name ≠ []) (pid : ℕ) :
    ¬IsManifest (tmpPath path pid) :=
  fun h => extension_tmpPath hpath pid h.2

lemma manifestFile_name_ne_nil (oid : ObjectId) : (manifestFile oid).name ≠ [] := by
  intro h
  have := congrArg List.length h
  simp only [manifestFile, List.length_append] at this
  revert this
  have : (ascii ".manifest").length = 9 := rfl
  simp only [this, List.length_nil]
  omega

lemma fileOk_tmp_manifest (oid : ObjectId) (pid : ℕ) (c : Bytes) :
    FileOk S M (tmpPath (manifestFile oid) pid) c := by
  refine ⟨fun h hh => ?_, fun hm => absurd hm ?_⟩
  · cases congrArg Path.dir hh
  · exact not_isManifest_tmp _ (manifestFile_name_ne_nil oid) pid

lemma fileOk_manifest {oid : ObjectId} {m : PersistEntryMeta}
    (henc : m.compat.encode.length < 2 ^ 64) (hfew : m.blocks.length ≤ maxBlocksPerTensor)
    (hm : M (manifestFile oid) m) : FileOk S M (manifestFile oid) (encodeManifest m) := by
  refine ⟨fun h hh => absurd hh.symm (blockFile_ne_manifestFile h oid), fun _ m' hm' => ?_⟩
  rw [(eq_of_decodeManifest_encode henc hfew hm').1]
  exact hm

end FileOk

end TensorCache
