import TensorCache.Crc
import TensorCache.Hash
import TensorCache.Lib.AssocMap

/-!
# Tensor storage

A payload is split into blocks. A block carries its content hash, which is its address in a
content-addressed store, and a checksum; equal blocks are stored once and counted.
-/

namespace TensorCache

open Codec

/-- Hard upper bound on the number of blocks for a single tensor. -/
def maxBlocksPerTensor : ℕ := 2 ^ 24

/-- A reference to one physical block of a logical tensor. -/
structure BlockRef where
  contentHash : Digest
  offset : UInt64
  len : UInt64
  crc : UInt32
deriving DecidableEq

/-- The reference to a given block at a given offset. -/
def blockRef (block : Bytes) (offset : ℕ) : BlockRef where
  contentHash := hash block
  offset := UInt64.ofNat offset
  len := UInt64.ofNat block.length
  crc := crc32c block

/-- The `while offset < total` loop of `chunk`, with a bound on the number of turns. -/
def chunkFrom (bytes : Bytes) (blockSize : ℕ) : ℕ → ℕ → List BlockRef
  | 0, _ => []
  | n + 1, offset =>
    if offset < bytes.length then
      let stop := offset + min blockSize (bytes.length - offset)
      blockRef (slice bytes offset (stop - offset)) offset :: chunkFrom bytes blockSize n stop
    else []

/-- Split a contiguous payload into ordered blocks. -/
def chunk (bytes : Bytes) (blockSize : ℕ) : Except Error (List BlockRef) :=
  if blockSize = 0 then .error (.invalidArgument "block size must be nonzero")
  else
    let nBlocks := (bytes.length + blockSize - 1) / blockSize
    if nBlocks > maxBlocksPerTensor then .error (.geometry "block count exceeds maximum")
    else .ok (chunkFrom bytes blockSize nBlocks 0)

/-- The loop of `validateBlockList`: the offset expected next and the blocks seen so far. -/
def validateFrom (byteLen : UInt64) (expected : UInt64) (seen : List (UInt64 × UInt64)) :
    List BlockRef → Except Error Unit
  | [] =>
    if expected ≠ byteLen then
      .error (.geometry s!"blocks cover {expected} bytes but tensor is {byteLen} bytes")
    else .ok ()
  | b :: bs =>
    if b.len = 0 then .error (.geometry "zero-length block")
    else if b.offset ≠ expected then
      .error (.geometry s!"block gap/overlap at offset {b.offset} (expected {expected})")
    else if b.offset + b.len > byteLen then
      .error (.geometry "block extends past tensor length")
    else if (b.offset, b.len) ∈ seen then .error (.geometry "duplicate block identity")
    else validateFrom byteLen (b.offset + b.len) ((b.offset, b.len) :: seen) bs

/-- The ordered block references exactly cover `byteLen` bytes, and there are not too many. -/
def validateBlockList (blocks : List BlockRef) (byteLen : UInt64) : Except Error Unit :=
  if blocks.length > maxBlocksPerTensor then .error (.geometry "block count exceeds maximum")
  else validateFrom byteLen 0 [] blocks

/-! ### The block arena -/

/-- A content-addressed block arena with reference counts. -/
structure BlockArena where
  blocks : HashMap Digest Bytes
  refs : HashMap Digest ℕ
  bytes : ℕ

namespace BlockArena

def new : BlockArena := ⟨∅, ∅, 0⟩

/-- The total number of unique block bytes held. -/
def bytesUsed (a : BlockArena) : ℕ := a.bytes

def blockCount (a : BlockArena) : ℕ := a.blocks.keys.length

/-- Register a block and acquire one reference to it. -/
def acquire (a : BlockArena) (block : Bytes) : BlockRef × BlockArena :=
  let h := hash block
  (blockRef block 0,
    match a.blocks.lookup h with
    | some _ => { a with refs := a.refs.modify h (· + 1) }
    | none =>
      { blocks := a.blocks.insert h block
        refs := a.refs.insert h 1
        bytes := a.bytes + block.length })

/-- Register a block with an explicit offset. -/
def acquireAt (a : BlockArena) (block : Bytes) (offset : UInt64) : BlockRef × BlockArena :=
  let (r, a) := a.acquire block
  ({ r with offset := offset }, a)

/-- Release one reference to a block. True if its bytes were freed. -/
def release (a : BlockArena) (contentHash : Digest) : Bool × BlockArena :=
  match a.refs.lookup contentHash with
  | none => (false, a)
  | some r =>
    if r - 1 = 0 then
      (true,
        { blocks := a.blocks.erase contentHash
          refs := a.refs.erase contentHash
          bytes := match a.blocks.lookup contentHash with
            | some block => a.bytes - block.length
            | none => a.bytes })
    else (false, { a with refs := a.refs.insert contentHash (r - 1) })

def get (a : BlockArena) (contentHash : Digest) : Except Error Bytes :=
  match a.blocks.lookup contentHash with
  | some block => .ok block
  | none => .error (.reconstruct s!"block {contentHash.toHex.val} missing")

def contains (a : BlockArena) (contentHash : Digest) : Bool := (a.blocks.lookup contentHash).isSome

/-- The acquisition loop of `register` and `addPlacement`: one reference for each block of the
payload, in order. -/
def acquireAll (a : BlockArena) (payload : Bytes) : List BlockRef → List BlockRef × BlockArena
  | [] => ([], a)
  | b :: bs =>
    let (r, a) := a.acquireAt (slice payload b.offset.toNat b.len.toNat) b.offset
    let (rs, a) := a.acquireAll payload bs
    (r :: rs, a)

end BlockArena

/-- The pre-pass of `register` and `addPlacement`: the bytes of the blocks a tier does not hold
yet, every occurrence counted. -/
def newBytes (held : Digest → Bool) : List BlockRef → ℕ
  | [] => 0
  | b :: bs => (if held b.contentHash then 0 else b.len.toNat) + newBytes held bs

/-! ### Reassembly -/

/-- The copy loop of `reconstruct`. -/
def reconstructFrom (get : Digest → Except Error Bytes) :
    List BlockRef → Bytes → Except Error Bytes
  | [], out => .ok out
  | b :: bs, out => do
    let data ← get b.contentHash
    if UInt64.ofNat data.length ≠ b.len then
      .error (.integrity
        s!"block {b.contentHash.toHex.val} length {data.length} does not match declared {b.len}")
    else if crc32c data ≠ b.crc then
      .error (.integrity s!"block {b.contentHash.toHex.val} checksum mismatch")
    else reconstructFrom get bs (copyAt out b.offset.toNat data)

/-- Reassemble a contiguous tensor from ordered block references using a block provider. -/
def reconstruct (blocks : List BlockRef) (byteLen : UInt64)
    (get : Digest → Except Error Bytes) : Except Error Bytes := do
  validateBlockList blocks byteLen
  reconstructFrom get blocks (List.replicate byteLen.toNat 0)

end TensorCache
