import TensorCache.Error
import TensorCache.Lib.Codec

/-!
# The bounds-checked binary codec

Numeric values are fixed-width little-endian; strings and byte blobs carry a `u64` length
prefix. `Writer` functions give the bytes they append to the buffer, `Reader` functions consume
the bytes not yet read.
-/

namespace TensorCache

open Codec

/-- A string of the source language: valid UTF-8 whose length fits a `usize`. -/
structure Str where
  val : String
  small : val.utf8ByteSize < 2 ^ 64
deriving DecidableEq

/-- A growable vector of the source language: its length fits a `usize`. -/
structure Vec (α : Type) where
  val : List α
  small : val.length < 2 ^ 64
deriving DecidableEq

namespace Str

/-- A string from a literal. -/
def lit (s : String) (h : decide (s.utf8ByteSize < 2 ^ 64) = true := by exact Eq.refl true) : Str :=
  ⟨s, of_decide_eq_true h⟩

def bytes (s : Str) : Bytes := s.val.toByteArray.data.toList

@[simp] lemma length_bytes (s : Str) : s.bytes.length = s.val.utf8ByteSize := rfl

lemma bytes_injective : Function.Injective bytes := by
  rintro ⟨⟨⟨⟨s⟩⟩, hs⟩, hs'⟩ ⟨⟨⟨⟨t⟩⟩, ht⟩, ht'⟩ h
  have hst : s = t := h
  subst hst
  rfl

end Str

lemma Vec.small_nil {α : Type} : ([] : List α).length < 2 ^ 64 := Nat.two_pow_pos 64

/-- The slice `bytes[start..start + len]`. -/
def slice (bytes : Bytes) (start len : ℕ) : Bytes := (bytes.drop start).take len

/-- `dst[start..start + src.len()].copy_from_slice(src)`. -/
def copyAt (dst : Bytes) (start : ℕ) (src : Bytes) : Bytes :=
  dst.take start ++ src ++ dst.drop (start + src.length)

lemma toNat_ofNat {n : ℕ} (h : n < 2 ^ 64) : (UInt64.ofNat n).toNat = n :=
  UInt64.toNat_ofNat_of_lt' h

/-! ### Writing -/

namespace Writer

def u8 (v : UInt8) : Bytes := [v]

def u32 (v : UInt32) : Bytes := leBytes 4 v.toNat

def u64 (v : UInt64) : Bytes := leBytes 8 v.toNat

def bool (v : Bool) : Bytes := [if v then 1 else 0]

/-- A length-prefixed byte blob. -/
def bytes (v : Bytes) : Bytes := u64 (UInt64.ofNat v.length) ++ v

/-- A length-prefixed UTF-8 string. -/
def str (v : Str) : Bytes := bytes v.bytes

end Writer

/-! ### Reading -/

abbrev Reader := Parser Error

namespace Reader

def fail {α : Type} (e : Error) : Reader α := fun _ => .error e

def take (n : ℕ) : Reader Bytes := fun data =>
  if n > data.length then
    .error (.protocol s!"truncated frame: need {n} bytes, have {data.length}")
  else .ok (data.take n, data.drop n)

def u8 : Reader UInt8 := do
  let b ← take 1
  pure (b.headD 0)

def u32 : Reader UInt32 := do
  let b ← take 4
  pure (UInt32.ofNat (leNat b))

def u64 : Reader UInt64 := do
  let b ← take 8
  pure (UInt64.ofNat (leNat b))

def bool : Reader Bool := do
  let v ← u8
  if v = 0 then pure false
  else if v = 1 then pure true
  else fail (.protocol s!"invalid bool byte {v}")

/-- The length is checked against the remaining input before anything is read. -/
def bytes : Reader Bytes := do
  let len ← u64
  take len.toNat

/-- `std::str::from_utf8`. -/
def fromUtf8 (b : Bytes) : Option String :=
  if h : (ByteArray.mk b.toArray).IsValidUTF8 then some (String.fromUTF8 _ h) else none

lemma utf8ByteSize_of_fromUtf8 {b : Bytes} {s : String} (h : fromUtf8 b = some s) :
    s.toByteArray.data.toList = b ∧ s.utf8ByteSize = b.length := by
  unfold fromUtf8 at h
  split at h
  · cases h
    exact ⟨rfl, rfl⟩
  · cases h

def str : Reader Str := fun data =>
  match hbytes : bytes data with
  | .error e => .error e
  | .ok (b, rest) =>
    match hutf8 : fromUtf8 b with
    | none => .error (.protocol "invalid UTF-8 in frame")
    | some s => .ok (⟨s, by
        rw [(utf8ByteSize_of_fromUtf8 hutf8).2]
        obtain ⟨len, mid, _, htake⟩ := bind_eq_ok hbytes
        simp only [take] at htake
        split at htake
        · cases htake
        · cases htake
          have := len.toNat_lt
          simp only [List.length_take]
          omega⟩, rest)

end Reader

/-! ### Writers and readers agree -/

lemma reads_take (a rest : Bytes) : Reader.take a.length (a ++ rest) = .ok (a, rest) := by
  simp [Reader.take]

lemma canonical_take {n : ℕ} {input a rest : Bytes} (h : Reader.take n input = .ok (a, rest)) :
    input = a ++ rest ∧ a.length = n := by
  simp only [Reader.take] at h
  split at h
  · cases h
  · rename_i hle
    cases h
    refine ⟨(List.take_append_drop n input).symm, ?_⟩
    simp only [List.length_take]
    omega

lemma reads_u8 : Reads Writer.u8 Reader.u8 := by
  intro a rest
  exact bind_ok (reads_take [a] rest)

lemma canonical_u8 : Canonical Writer.u8 Reader.u8 := by
  intro input a rest h
  obtain ⟨b, mid, htake, h⟩ := bind_eq_ok h
  obtain ⟨hin, hlen⟩ := canonical_take htake
  obtain ⟨c, rfl⟩ := List.length_eq_one_iff.mp hlen
  cases h
  exact hin

lemma reads_u32 : Reads Writer.u32 Reader.u32 := by
  intro a rest
  have hlen : (Writer.u32 a).length = 4 := length_leBytes 4 _
  rw [Reader.u32, bind_ok (hlen ▸ reads_take (Writer.u32 a) rest), pure_apply, Writer.u32,
    leNat_leBytes, Nat.mod_eq_of_lt (by simpa using a.toNat_lt), UInt32.ofNat_toNat]

lemma canonical_u32 : Canonical Writer.u32 Reader.u32 := by
  intro input a rest h
  obtain ⟨b, mid, htake, h⟩ := bind_eq_ok h
  obtain ⟨hin, hlen⟩ := canonical_take htake
  cases h
  have hb : leNat b < 2 ^ 32 := by simpa [hlen] using leNat_lt b
  have hword : Writer.u32 (UInt32.ofNat (leNat b)) = b := by
    rw [Writer.u32, UInt32.toNat_ofNat_of_lt' hb, ← hlen, leBytes_leNat]
  rw [hword]
  exact hin

lemma reads_u64 : Reads Writer.u64 Reader.u64 := by
  intro a rest
  have hlen : (Writer.u64 a).length = 8 := length_leBytes 8 _
  rw [Reader.u64, bind_ok (hlen ▸ reads_take (Writer.u64 a) rest), pure_apply, Writer.u64,
    leNat_leBytes, Nat.mod_eq_of_lt (by simpa using a.toNat_lt), UInt64.ofNat_toNat]

lemma canonical_u64 : Canonical Writer.u64 Reader.u64 := by
  intro input a rest h
  obtain ⟨b, mid, htake, h⟩ := bind_eq_ok h
  obtain ⟨hin, hlen⟩ := canonical_take htake
  cases h
  have hb : leNat b < 2 ^ 64 := by simpa [hlen] using leNat_lt b
  have hword : Writer.u64 (UInt64.ofNat (leNat b)) = b := by
    rw [Writer.u64, UInt64.toNat_ofNat_of_lt' hb, ← hlen, leBytes_leNat]
  rw [hword]
  exact hin

lemma reads_bool : Reads Writer.bool Reader.bool := by
  intro a rest
  cases a with
  | false => exact bind_ok (reads_u8 0 rest)
  | true => exact bind_ok (reads_u8 1 rest)

lemma canonical_bool : Canonical Writer.bool Reader.bool := by
  intro input a rest h
  obtain ⟨v, mid, hin, h⟩ := canonical_u8.bind h
  split_ifs at h with hzero hone
  · cases h
    rw [hin, hzero]
    rfl
  · cases h
    rw [hin, hone]
    rfl
  · cases h

/-- A blob is read back as soon as its length fits the prefix. -/
lemma reads_bytes {a : Bytes} (ha : a.length < 2 ^ 64) (rest : Bytes) :
    Reader.bytes (Writer.bytes a ++ rest) = .ok (a, rest) := by
  rw [Reader.bytes, Writer.bytes, List.append_assoc, bind_ok (reads_u64 _ _),
    UInt64.toNat_ofNat_of_lt' ha]
  exact reads_take a rest

lemma canonical_bytes : Canonical Writer.bytes Reader.bytes := by
  intro input a rest h
  obtain ⟨len, mid, hin, h⟩ := canonical_u64.bind h
  obtain ⟨hmid, hlen⟩ := canonical_take h
  rw [hin, hmid, Writer.bytes, hlen, UInt64.ofNat_toNat, List.append_assoc]

/-- The length of a blob that was read fits its prefix. -/
lemma length_of_bytes {input a rest : Bytes} (h : Reader.bytes input = .ok (a, rest)) :
    a.length < 2 ^ 64 := by
  obtain ⟨len, mid, -, h⟩ := canonical_u64.bind h
  rw [(canonical_take h).2]
  exact len.toNat_lt

lemma fromUtf8_bytes (s : Str) : Reader.fromUtf8 s.bytes = some s.val := by
  have h : (ByteArray.mk s.bytes.toArray).IsValidUTF8 := s.val.isValidUTF8
  simp only [Reader.fromUtf8, dif_pos h]
  rfl

lemma reads_str : Reads Writer.str Reader.str := by
  intro a rest
  have hb := reads_bytes (a := a.bytes) a.small rest
  unfold Reader.str Writer.str
  split
  · rename_i e he
    rw [hb] at he
    cases he
  · rename_i b rest' hok
    rw [hb] at hok
    cases hok
    split
    · rename_i hnone
      rw [fromUtf8_bytes] at hnone
      cases hnone
    · rename_i s hs
      rw [fromUtf8_bytes] at hs
      cases hs
      rfl

lemma canonical_str : Canonical Writer.str Reader.str := by
  intro input a rest h
  unfold Reader.str at h
  split at h
  · cases h
  · rename_i b mid hbytes
    split at h
    · cases h
    · rename_i s hs
      have hb : a.bytes = b := by
        cases h
        exact (Reader.utf8ByteSize_of_fromUtf8 hs).1
      have hmid : mid = rest := by
        cases h
        rfl
      rw [canonical_bytes input b mid hbytes, Writer.str, hb, hmid]

end TensorCache
