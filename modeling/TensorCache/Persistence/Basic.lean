import TensorCache.Compat
import TensorCache.Lib.Command
import TensorCache.Lib.Journal
import TensorCache.Storage.Basic

/-!
# Durable persistence

One file for each block, named by its content hash, and one manifest for each tensor. Files are
committed by writing a temporary sibling, flushing it and renaming it into place.

The filesystem is a map from paths to contents, changed by single steps. A store keeps the steps
of the current call, so that the states a crash can leave behind are those of its journal.
-/

namespace TensorCache

open Codec DurableStep

/-! ### The filesystem -/

/-- The two directories of a store. -/
inductive Dir where
  | blocks | manifests
deriving DecidableEq

structure Path where
  dir : Dir
  name : Bytes
deriving DecidableEq

abbrev Disk := HashMap Path Bytes

/-- The single filesystem steps of the store. -/
inductive FsStep where
  | create (path : Path)
  | write (path : Path) (bytes : Bytes)
  | sync (path : Path)
  | remove (path : Path)
  | rename (src dst : Path)

namespace FsStep

def apply : FsStep → Disk → Disk
  | create path, disk => disk.insert path []
  | write path bytes, disk => disk.modify path (· ++ bytes)
  | sync _, disk => disk
  | remove path, disk => disk.erase path
  | rename src dst, disk =>
    match disk.lookup src with
    | some bytes => (disk.erase src).insert dst bytes
    | none => disk

/-- A write can be cut short; the other steps happen or do not. -/
def torn : FsStep → ℕ → Option FsStep
  | write path bytes, k => some (write path (bytes.take k))
  | _, _ => none

instance : DurableStep FsStep Disk := ⟨apply, torn⟩

end FsStep

/-- A filesystem operation that fails; a write may have written a part. -/
structure IoFault where
  message : String := "Input/output error"
  written : ℕ := 0

/-- Which filesystem changes of a call fail: by their number in the call, and by what they do. -/
abbrev IoFaults := ℕ → FsStep → Option IoFault

/-! ### Manifests -/

/-- Durable metadata persisted for one tensor entry. -/
structure PersistEntryMeta where
  objectId : Str
  nameSpace : Str
  key : Str
  generation : UInt64
  compat : CompatKey
  byteLen : UInt64
  numel : UInt64
  createdNs : UInt64
  blocks : List BlockRef
deriving DecidableEq

/-- "TCM1". -/
def manifestMagic : UInt32 := 0x54434D31

def manifestVersion : UInt8 := 1

def writeBlockRef (b : BlockRef) : Bytes :=
  Writer.bytes b.contentHash.bytes ++ (Writer.u64 b.offset ++ (Writer.u64 b.len ++
    Writer.u32 b.crc))

/-- The body of a manifest, without its anchor. -/
def manifestBody (m : PersistEntryMeta) : Bytes :=
  Writer.u32 manifestMagic ++ (Writer.u8 manifestVersion ++ (Writer.str m.objectId ++
  (Writer.str m.nameSpace ++ (Writer.str m.key ++ (Writer.u64 m.generation ++
  (Writer.bytes m.compat.encode ++ (Writer.u64 m.byteLen ++ (Writer.u64 m.numel ++
  (Writer.u64 m.createdNs ++ (Writer.u64 (UInt64.ofNat m.blocks.length) ++
  putAll writeBlockRef m.blocks))))))))))

/-- A manifest: the body and the SHA-256 anchor over it. -/
def encodeManifest (m : PersistEntryMeta) : Bytes :=
  manifestBody m ++ (hash (manifestBody m)).bytes

def readBlockRef : Reader BlockRef := do
  let hashBytes ← Reader.bytes
  if h : hashBytes.length = 32 then do
    let offset ← Reader.u64
    let len ← Reader.u64
    let crc ← Reader.u32
    pure ⟨⟨hashBytes, h⟩, offset, len, crc⟩
  else Reader.fail (.persistence "block content hash wrong length")

/-- The fields of a manifest body. -/
def readManifest : Reader PersistEntryMeta := do
  let magic ← Reader.u32
  if magic ≠ manifestMagic then Reader.fail (.persistence "manifest magic mismatch") else do
  let version ← Reader.u8
  if version ≠ manifestVersion then
    Reader.fail (.persistence s!"manifest version {version} unsupported") else do
  let objectId ← Reader.str
  let nameSpace ← Reader.str
  let key ← Reader.str
  let generation ← Reader.u64
  let compatBytes ← Reader.bytes
  let compat ← CompatKey.lift (CompatKey.decode compatBytes)
  let byteLen ← Reader.u64
  let numel ← Reader.u64
  let createdNs ← Reader.u64
  let blockCount ← Reader.u64
  if blockCount.toNat > maxBlocksPerTensor then
    Reader.fail (.persistence "manifest block count exceeds maximum") else do
  let blocks ← getMany readBlockRef blockCount.toNat
  pure { objectId, nameSpace, key, generation, compat, byteLen, numel, createdNs, blocks }

/-- The checks on the fields of a manifest against each other. -/
def checkManifest (m : PersistEntryMeta) : Except Error Unit := do
  let byteLen ← m.compat.shape.byteLen m.compat.dtype.byteSize
  if m.byteLen ≠ byteLen then .error (.persistence "manifest byte_len inconsistent with compat")
  else do
    let numel ← m.compat.shape.numel
    if m.numel ≠ numel then .error (.persistence "manifest numel inconsistent with compat")
    else validateBlockList m.blocks m.byteLen

def decodeManifest (data : Bytes) : Except Error PersistEntryMeta :=
  if data.length < 32 then .error (.persistence "manifest truncated")
  else
    let body := data.take (data.length - 32)
    let anchor := data.drop (data.length - 32)
    if (hash body).bytes ≠ anchor then .error (.persistence "manifest anchor mismatch")
    else do
      let (m, rest) ← readManifest body
      if rest ≠ [] then .error (.persistence "trailing bytes in manifest")
      else do
        checkManifest m
        .ok m

/-! ### Paths -/

/-- The bytes of a literal. -/
def ascii (s : String) : Bytes := s.toByteArray.data.toList

def isAsciiHexdigit (b : UInt8) : Bool :=
  (0x30 ≤ b && b ≤ 0x39) || (0x61 ≤ b && b ≤ 0x66) || (0x41 ≤ b && b ≤ 0x46)

def hexPathValid (p : Str) : Bool := p.bytes.length = 64 && p.bytes.all isAsciiHexdigit

def manifestPath (objectId : Str) : Except Error Path :=
  if hexPathValid objectId then .ok ⟨.manifests, objectId.bytes ++ ascii ".manifest"⟩
  else .error (.persistence "invalid object id for manifest path")

def blockPath (contentHash : Digest) : Except Error Path :=
  if hexPathValid contentHash.toHex then .ok ⟨.blocks, contentHash.toHex.bytes⟩
  else .error (.persistence "invalid content hash for block path")

/-- The temporary sibling of a file, for the process with the given id. -/
def tmpPath (path : Path) (pid : ℕ) : Path :=
  ⟨path.dir, path.name ++ (ascii ".tmp" ++ (Nat.toDigits 10 pid).map fun c => UInt8.ofNat c.toNat)⟩

/-- `Path::extension`: what follows the last dot, unless nothing precedes it. -/
def extension (name : Bytes) : Option Bytes :=
  let ext := (name.reverse.takeWhile (· ≠ 0x2e)).reverse
  if ext.length + 1 < name.length then some ext else none

/-- A name left over from an interrupted commit. Names that are not UTF-8 are not looked at. -/
def isLeftover (name : Bytes) : Bool :=
  (Reader.fromUtf8 name).isSome &&
    (name.tails.any (fun t => (ascii ".tmp").isPrefixOf t) || (ascii ".bak").isSuffixOf name)

/-! ### The store -/

/-- A store: the files at the beginning of the current call, and the steps of the call. -/
structure PersistentStore where
  base : Disk
  journal : List FsStep := []
  /-- How many filesystem changes the current call has attempted. -/
  attempts : ℕ := 0
  pid : ℕ

namespace PersistentStore

/-- The files as they are now. -/
def disk (st : PersistentStore) : Disk := replay st.journal st.base

/-- A new call starts with an empty journal. -/
def beginCall (st : PersistentStore) : PersistentStore :=
  { st with base := st.disk, journal := [], attempts := 0 }

/-- Attempt one filesystem change; `io` tells which attempts of the call fail. -/
def attempt (io : IoFaults) (step : FsStep) : EStateM Error PersistentStore PUnit :=
  fun st =>
    match io st.attempts step with
    | none =>
      .ok ⟨⟩ { st with journal := st.journal ++ [step], attempts := st.attempts + 1 }
    | some fault =>
      .error (.io fault.message)
        { st with
          journal := st.journal ++ (step.torn fault.written).toList
          attempts := st.attempts + 1 }

/-- Remove the file that is about to be replaced; a failure is ignored. -/
def removeReplaced (io : IoFaults) (path : Path) :
    EStateM Error PersistentStore PUnit := do
  if ((← get).disk.lookup path).isSome then EStateM.ignoring (attempt io (.remove path))
  else pure ⟨⟩

/-- Write a sibling temporary file, flush it, then rename it into place. -/
def atomicWrite (io : IoFaults) (path : Path) (bytes : Bytes) :
    EStateM Error PersistentStore PUnit := do
  let tmp := tmpPath path (← get).pid
  attempt io (.create tmp)
  attempt io (.write tmp bytes)
  attempt io (.sync tmp)
  removeReplaced io path
  attempt io (.rename tmp path)

/-- Write a block file (content addressed). -/
def putBlock (io : IoFaults) (bytes : Bytes) :
    EStateM Error PersistentStore Digest := do
  let path ← EStateM.ofExcept (blockPath (hash bytes))
  match (← get).disk.lookup path with
  | some existing =>
    if existing ≠ bytes then
      throw (.persistence s!"block {(hash bytes).toHex.val} exists with corrupt contents")
    else pure (hash bytes)
  | none => do
    atomicWrite io path bytes
    pure (hash bytes)

/-- Read and verify a block file against its content hash. -/
def getBlock (st : PersistentStore) (contentHash : Digest) : Except Error Bytes := do
  let path ← blockPath contentHash
  match st.disk.lookup path with
  | none => .error (.reconstruct
      s!"block {contentHash.toHex.val} missing: No such file or directory (os error 2)")
  | some bytes =>
    if hash bytes ≠ contentHash then
      .error (.persistence s!"block {contentHash.toHex.val} content hash mismatch")
    else .ok bytes

/-- The tail of `remove_block` and `remove_manifest`. -/
def removeFile (io : IoFaults) (path : Path) : EStateM Error PersistentStore PUnit := do
  if ((← get).disk.lookup path).isSome then attempt io (.remove path) else pure ⟨⟩

def removeBlock (io : IoFaults) (contentHash : Digest) :
    EStateM Error PersistentStore PUnit := do
  let path ← EStateM.ofExcept (blockPath contentHash)
  removeFile io path

/-- Atomically commit a manifest for a tensor entry. -/
def writeManifest (io : IoFaults) (m : PersistEntryMeta) :
    EStateM Error PersistentStore PUnit := do
  let path ← EStateM.ofExcept (manifestPath m.objectId)
  atomicWrite io path (encodeManifest m)

def removeManifest (io : IoFaults) (objectId : Str) :
    EStateM Error PersistentStore PUnit := do
  let path ← EStateM.ofExcept (manifestPath objectId)
  removeFile io path

/-- The valid manifests, skipping any corrupt, truncated or incomplete record. -/
def recover (st : PersistentStore) : List PersistEntryMeta :=
  st.disk.entries.filterMap fun file =>
    if file.1.dir = .manifests ∧ extension file.1.name = some (ascii "manifest") then
      (decodeManifest file.2).toOption
    else none

/-- Remove leftover files from an interrupted commit. -/
def cleanupIncomplete (io : IoFaults) : EStateM Error PersistentStore PUnit := do
  (← get).disk.keys.forM fun path =>
    if isLeftover path.name then EStateM.ignoring (attempt io (.remove path)) else pure ⟨⟩

def blockExists (st : PersistentStore) (contentHash : Digest) : Bool :=
  match blockPath contentHash with
  | .ok path => (st.disk.lookup path).isSome
  | .error _ => false

/-- Whether a manifest's blocks all exist on disk. -/
def blocksExist (st : PersistentStore) (blocks : List BlockRef) : Bool :=
  blocks.all fun b => st.blockExists b.contentHash

/-- Open a store on the files of a directory. -/
def openOn (io : IoFaults) (disk : Disk) (pid : ℕ) : PersistentStore :=
  (cleanupIncomplete io { base := disk, pid }).state

end PersistentStore

end TensorCache
