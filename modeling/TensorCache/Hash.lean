import Mathlib.Data.Set.Function
import TensorCache.Wire

/-!
# SHA-256 and hexadecimal names

The streaming hasher, block by block, and the lower-case hexadecimal form of digests that is
used for storage keys and file names.
-/

namespace TensorCache

open Codec

/-- A 32-byte SHA-256 digest. -/
structure Digest where
  bytes : Bytes
  length_bytes : bytes.length = 32
deriving DecidableEq

/-! ### Hexadecimal -/

def hexDigits : Bytes :=
  [0x30, 0x31, 0x32, 0x33, 0x34, 0x35, 0x36, 0x37, 0x38, 0x39, 0x61, 0x62, 0x63, 0x64, 0x65, 0x66]

/-- The two characters of one byte. -/
def hexByte (b : UInt8) : Bytes :=
  [hexDigits.getD (b.toNat / 16) 0, hexDigits.getD (b.toNat % 16) 0]

/-- Encode bytes as lower-case hex. -/
def hex (bytes : Bytes) : String :=
  String.ofList ((bytes.flatMap hexByte).map fun b => Char.ofNat b.toNat)

def hexVal (c : UInt8) : Except Error UInt8 :=
  if 0x30 ≤ c ∧ c ≤ 0x39 then .ok (c - 0x30)
  else if 0x61 ≤ c ∧ c ≤ 0x66 then .ok (c - 0x61 + 10)
  else if 0x41 ≤ c ∧ c ≤ 0x46 then .ok (c - 0x41 + 10)
  else .error (.invalidArgument s!"invalid hex digit {Char.ofNat c.toNat}")

/-- The `chunks_exact(2)` loop of `parseHex`. -/
def parseHexPairs : Bytes → Except Error Bytes
  | hi :: lo :: rest => do
    let h ← hexVal hi
    let l ← hexVal lo
    let out ← parseHexPairs rest
    pure (((h <<< 4) ||| l) :: out)
  | _ => .ok []

/-- Parse a hex string of even length, rejecting invalid characters. -/
def parseHex (s : Str) : Except Error Bytes :=
  if s.bytes.length % 2 ≠ 0 then .error (.invalidArgument "hex string has odd length")
  else parseHexPairs s.bytes

/-- Facts about single bytes are checked on all 256 of them. -/
lemma forall_uint8 {p : UInt8 → Prop} (h : ∀ n < 256, p (UInt8.ofNat n)) (b : UInt8) : p b := by
  have := h b.toNat b.toNat_lt
  rwa [UInt8.ofNat_toNat] at this

lemma utf8Encode_hexByte (b : UInt8) :
    ((hexByte b).map fun c => Char.ofNat c.toNat).flatMap String.utf8EncodeChar = hexByte b := by
  revert b
  exact forall_uint8 (by decide +kernel)

lemma toByteArray_hex (bytes : Bytes) :
    (hex bytes).toByteArray = (bytes.flatMap hexByte).toByteArray := by
  rw [hex, String.toByteArray_ofList, List.utf8Encode]
  congr 1
  induction bytes with
  | nil => rfl
  | cons b bytes ih =>
    rw [List.flatMap_cons, List.map_append, List.flatMap_append, ih, utf8Encode_hexByte]

lemma length_flatMap_hexByte (bytes : Bytes) :
    (bytes.flatMap hexByte).length = 2 * bytes.length := by
  induction bytes with
  | nil => rfl
  | cons b bytes ih =>
    rw [List.flatMap_cons, List.length_append, ih, List.length_cons]
    simp only [hexByte, List.length_cons, List.length_nil]
    omega

lemma utf8ByteSize_hex (bytes : Bytes) : (hex bytes).utf8ByteSize = 2 * bytes.length := by
  rw [String.utf8ByteSize, toByteArray_hex, List.size_toByteArray, length_flatMap_hexByte]

namespace Digest

/-- Lower-case hex representation (64 characters). -/
def toHex (d : Digest) : Str :=
  ⟨hex d.bytes, by rw [utf8ByteSize_hex, d.length_bytes]; decide⟩

@[simp] lemma bytes_toHex (d : Digest) : d.toHex.bytes = d.bytes.flatMap hexByte := by
  change (hex d.bytes).toByteArray.data.toList = _
  rw [toByteArray_hex, List.toList_data_toByteArray]

@[simp] lemma length_bytes_toHex (d : Digest) : d.toHex.bytes.length = 64 := by
  rw [bytes_toHex, length_flatMap_hexByte, d.length_bytes]

end Digest

lemma parseHexPairs_hexByte (b : UInt8) (rest : Bytes) :
    parseHexPairs (hexByte b ++ rest) = (parseHexPairs rest).map (b :: ·) := by
  have hval : ∀ b : UInt8, ∃ h l, hexVal (hexDigits.getD (b.toNat / 16) 0) = .ok h ∧
      hexVal (hexDigits.getD (b.toNat % 16) 0) = .ok l ∧ (h <<< 4) ||| l = b := by
    intro b
    refine ⟨b >>> 4, b &&& 0x0f, ?_⟩
    revert b
    exact forall_uint8 (by decide +kernel)
  obtain ⟨h, l, hhi, hlo, hb⟩ := hval b
  simp only [hexByte, List.cons_append, List.nil_append, parseHexPairs, hhi, hlo]
  change (parseHexPairs rest >>= fun out => Except.ok ((h <<< 4 ||| l) :: out)) = _
  rw [hb]
  cases parseHexPairs rest <;> rfl

lemma parseHexPairs_flatMap (bytes : Bytes) :
    parseHexPairs (bytes.flatMap hexByte) = .ok bytes := by
  induction bytes with
  | nil => rfl
  | cons b bytes ih =>
    rw [List.flatMap_cons, parseHexPairs_hexByte, ih]
    rfl

lemma parseHex_toHex (d : Digest) : parseHex d.toHex = .ok d.bytes := by
  rw [parseHex, d.length_bytes_toHex, if_neg (by decide), d.bytes_toHex, parseHexPairs_flatMap]

lemma Digest.toHex_injective : Function.Injective Digest.toHex := by
  intro d d' h
  have hb := parseHex_toHex d
  rw [h, parseHex_toHex d'] at hb
  cases d
  cases d'
  cases hb
  rfl

/-! ### SHA-256 -/

def roundConstants : List UInt32 := [
  0x428a2f98, 0x71374491, 0xb5c0fbcf, 0xe9b5dba5, 0x3956c25b, 0x59f111f1, 0x923f82a4, 0xab1c5ed5,
  0xd807aa98, 0x12835b01, 0x243185be, 0x550c7dc3, 0x72be5d74, 0x80deb1fe, 0x9bdc06a7, 0xc19bf174,
  0xe49b69c1, 0xefbe4786, 0x0fc19dc6, 0x240ca1cc, 0x2de92c6f, 0x4a7484aa, 0x5cb0a9dc, 0x76f988da,
  0x983e5152, 0xa831c66d, 0xb00327c8, 0xbf597fc7, 0xc6e00bf3, 0xd5a79147, 0x06ca6351, 0x14292967,
  0x27b70a85, 0x2e1b2138, 0x4d2c6dfc, 0x53380d13, 0x650a7354, 0x766a0abb, 0x81c2c92e, 0x92722c85,
  0xa2bfe8a1, 0xa81a664b, 0xc24b8b70, 0xc76c51a3, 0xd192e819, 0xd6990624, 0xf40e3585, 0x106aa070,
  0x19a4c116, 0x1e376c08, 0x2748774c, 0x34b0bcb5, 0x391c0cb3, 0x4ed8aa4a, 0x5b9cca4f, 0x682e6ff3,
  0x748f82ee, 0x78a5636f, 0x84c87814, 0x8cc70208, 0x90befffa, 0xa4506ceb, 0xbef9a3f7, 0xc67178f2]

/-- The eight working words `a` to `h`. -/
structure Words where
  a : UInt32
  b : UInt32
  c : UInt32
  d : UInt32
  e : UInt32
  f : UInt32
  g : UInt32
  h : UInt32
deriving DecidableEq

def rotateRight (x n : UInt32) : UInt32 := (x >>> n) ||| (x <<< (32 - n))

def fromBeBytes (b : Bytes) : UInt32 := UInt32.ofNat (leNat b.reverse)

def toBeBytes (w : UInt32) : Bytes := (leBytes 4 w.toNat).reverse

/-- `n` more words of the message schedule. The latest word comes first, so `w[i - 2]` is the
second one. -/
def extendSchedule (w : List UInt32) : ℕ → List UInt32
  | 0 => w
  | n + 1 =>
    let x := w.getD 14 0
    let y := w.getD 1 0
    let s0 := rotateRight x 7 ^^^ rotateRight x 18 ^^^ (x >>> 3)
    let s1 := rotateRight y 17 ^^^ rotateRight y 19 ^^^ (y >>> 10)
    extendSchedule ((w.getD 15 0 + s0 + w.getD 6 0 + s1) :: w) n

def schedule (block : Bytes) : List UInt32 :=
  let words := (List.range 16).map fun i => fromBeBytes ((block.drop (4 * i)).take 4)
  (extendSchedule words.reverse 48).reverse

/-- One of the 64 rounds, with its constant and its schedule word. -/
def compressRound (r : Words) (kw : UInt32 × UInt32) : Words :=
  let s1 := rotateRight r.e 6 ^^^ rotateRight r.e 11 ^^^ rotateRight r.e 25
  let ch := (r.e &&& r.f) ^^^ (~~~r.e &&& r.g)
  let temp1 := r.h + s1 + ch + kw.1 + kw.2
  let s0 := rotateRight r.a 2 ^^^ rotateRight r.a 13 ^^^ rotateRight r.a 22
  let maj := (r.a &&& r.b) ^^^ (r.a &&& r.c) ^^^ (r.b &&& r.c)
  let temp2 := s0 + maj
  { a := temp1 + temp2, b := r.a, c := r.b, d := r.c,
    e := r.d + temp1, f := r.e, g := r.f, h := r.g }

def compress (s : Words) (block : Bytes) : Words :=
  let r := (roundConstants.zip (schedule block)).foldl compressRound s
  { a := s.a + r.a, b := s.b + r.b, c := s.c + r.c, d := s.d + r.d,
    e := s.e + r.e, f := s.f + r.f, g := s.g + r.g, h := s.h + r.h }

/-- A streaming SHA-256 hasher. -/
structure Sha256 where
  state : Words
  buffer : Bytes
  bufferLen : ℕ
  totalLen : UInt64

namespace Sha256

def new : Sha256 where
  state :=
    { a := 0x6a09e667, b := 0xbb67ae85, c := 0x3c6ef372, d := 0xa54ff53a,
      e := 0x510e527f, f := 0x9b05688c, g := 0x1f83d9ab, h := 0x5be0cd19 }
  buffer := List.replicate 64 0
  bufferLen := 0
  totalLen := 0

/-- The `while data.len() >= 64` loop, one turn for each whole block. -/
def absorb : ℕ → Words → Bytes → Words × Bytes
  | 0, s, data => (s, data)
  | n + 1, s, data => absorb n (compress s (data.take 64)) (data.drop 64)

/-- Top up a partial buffer, and compress it once it is full. -/
def fillBuffer (hs : Sha256) (data : Bytes) : Sha256 × Bytes :=
  if hs.bufferLen > 0 then
    let taken := min (64 - hs.bufferLen) data.length
    let buffer := copyAt hs.buffer hs.bufferLen (data.take taken)
    if hs.bufferLen + taken = 64 then
      ({ hs with state := compress hs.state buffer, buffer := buffer, bufferLen := 0 },
        data.drop taken)
    else ({ hs with buffer := buffer, bufferLen := hs.bufferLen + taken }, data.drop taken)
  else (hs, data)

/-- Feed bytes into the hasher. -/
def update (hs : Sha256) (data : Bytes) : Sha256 :=
  let hs := { hs with totalLen := hs.totalLen + UInt64.ofNat data.length }
  let (hs, data) := hs.fillBuffer data
  let (state, data) := absorb (data.length / 64) hs.state data
  let hs := { hs with state := state }
  if data.isEmpty then hs
  else { hs with buffer := copyAt hs.buffer 0 data, bufferLen := data.length }

/-- The padded last block, or last two blocks. -/
def finalState (hs : Sha256) : Words :=
  let bitLen := (leBytes 8 (hs.totalLen * 8).toNat).reverse
  let block := copyAt (copyAt (List.replicate 64 0) 0 (hs.buffer.take hs.bufferLen))
    hs.bufferLen [0x80]
  if hs.bufferLen + 1 > 56 then
    compress (compress hs.state block) (copyAt (List.replicate 64 0) 56 bitLen)
  else compress hs.state (copyAt block 56 bitLen)

/-- The digest of everything fed so far. -/
def finalize (hs : Sha256) : Digest :=
  let s := hs.finalState
  { bytes := toBeBytes s.a ++ toBeBytes s.b ++ toBeBytes s.c ++ toBeBytes s.d ++
      toBeBytes s.e ++ toBeBytes s.f ++ toBeBytes s.g ++ toBeBytes s.h
    length_bytes := by simp [toBeBytes] }

end Sha256

/-- One-shot SHA-256 hash of a buffer. -/
@[irreducible] def hash (data : Bytes) : Digest := (Sha256.new.update data).finalize

/-- No two byte strings of `S` share a digest. -/
def CollisionFree (S : Set Bytes) : Prop := Set.InjOn hash S

end TensorCache
