import Mathlib.Order.Bounds.Basic
import TensorCache.Hash
import TensorCache.Lib.Blocks

/-!
# Hashing in pieces

The streaming hasher keeps what does not fill a block and compresses whole blocks as they come. A
message that is fed in any pieces leaves the state that its whole blocks lead to, and the rest of
it in the buffer (`Fed`). The last one or two blocks that `finalize` builds are those of the padded
message.
-/

namespace TensorCache

open Codec Blocks

/-! ### The definition by padded blocks -/

/-- The big-endian serialisation of the eight words. -/
def Words.toBytes (w : Words) : Bytes :=
  toBeBytes w.a ++ toBeBytes w.b ++ toBeBytes w.c ++ toBeBytes w.d ++
    toBeBytes w.e ++ toBeBytes w.f ++ toBeBytes w.g ++ toBeBytes w.h

/-- A number as a big-endian `u64`. -/
def beBytes64 (n : ℕ) : Bytes := (leBytes 8 n).reverse

/-- The message with a `0x80`, `zeros` zero bytes and its length in bits behind it. -/
def padded (m : Bytes) (zeros : ℕ) : Bytes :=
  m ++ [0x80] ++ List.replicate zeros 0 ++ beBytes64 (8 * m.length)

/-- The state that compressing all blocks of a byte string leads to. -/
def compressAll (data : Bytes) : Words := (blocks 64 data).foldl compress Sha256.new.state

@[simp] lemma length_beBytes64 (n : ℕ) : (beBytes64 n).length = 8 := by simp [beBytes64]

lemma compressAll_append {k : ℕ} {a : Bytes} (ha : a.length = 64 * k) (b : Bytes) :
    compressAll (a ++ b) = (blocks 64 b).foldl compress (compressAll a) := by
  rw [compressAll, blocks_append (by decide) ha, List.foldl_append]
  rfl

/-! ### Feeding -/

namespace Sha256

variable {hs : Sha256} {m data : Bytes}

/-- The hasher has been fed `m`: the whole blocks are compressed, the rest is in the buffer. -/
structure Holds (m : Bytes) (hs : Sha256) : Prop where
  split : ∃ k whole, whole.length = 64 * k ∧ m = whole ++ hs.buffer.take hs.bufferLen ∧
    hs.state = compressAll whole
  bufferLen : hs.bufferLen < 64
  buffer : hs.buffer.length = 64

/-- The loop over whole blocks. -/
lemma absorb_eq (n : ℕ) (s : Words) (data : Bytes) (h : 64 * n ≤ data.length) :
    absorb n s data = ((blocks 64 (data.take (64 * n))).foldl compress s, data.drop (64 * n)) := by
  induction n generalizing s data with
  | zero =>
    rw [Nat.mul_zero, List.take_zero, blocks_of_lt (by decide)]
    rfl
  | succ n ih =>
    have hblock : (data.take 64).length = 64 := by
      rw [List.length_take]
      omega
    have hsplit : data.take (64 * (n + 1)) = data.take 64 ++ (data.drop 64).take (64 * n) := by
      rw [Nat.mul_succ, Nat.add_comm, List.take_add]
    rw [absorb, ih _ _ (by rw [List.length_drop]; omega), hsplit,
      blocks_block_append (by decide) hblock, List.foldl_cons, List.drop_drop, Nat.mul_succ,
      Nat.add_comm 64]

/-- Writing behind the bytes that count. -/
lemma take_copyAt {buffer x : Bytes} {start : ℕ} (h : start + x.length ≤ buffer.length) :
    (copyAt buffer start x).take (start + x.length) = buffer.take start ++ x ∧
      (copyAt buffer start x).length = buffer.length := by
  have hlen : (buffer.take start ++ x).length = start + x.length := by
    rw [List.length_append, List.length_take]
    omega
  constructor
  · rw [copyAt, ← hlen, List.take_left]
  · rw [copyAt, List.length_append, hlen, List.length_drop]
    omega

/-- A buffer that becomes full is compressed. -/
lemma Holds.full (h : Holds m hs) {x : Bytes} (hx : hs.bufferLen + x.length = 64) :
    Holds (m ++ x) { hs with
      state := compress hs.state (copyAt hs.buffer hs.bufferLen x)
      buffer := copyAt hs.buffer hs.bufferLen x
      bufferLen := 0 } := by
  obtain ⟨k, whole, hwhole, hm, hstate⟩ := h.split
  obtain ⟨htake, hlen⟩ := take_copyAt (hx.trans h.buffer.symm).le
  rw [h.buffer] at hlen
  rw [hx, List.take_of_length_le hlen.le] at htake
  refine ⟨⟨k + 1, whole ++ copyAt hs.buffer hs.bufferLen x, ?_, ?_, ?_⟩, Nat.zero_lt_succ _, hlen⟩
  · rw [List.length_append, hlen, hwhole, Nat.mul_succ]
  · rw [List.take_zero, List.append_nil, htake, hm, List.append_assoc]
  · rw [compressAll_append hwhole, blocks_singleton (Nat.zero_lt_succ _) hlen, ← hstate,
      List.foldl_cons, List.foldl_nil]

/-- A buffer that does not become full grows. -/
lemma Holds.grow (h : Holds m hs) {x : Bytes} (hx : hs.bufferLen + x.length < 64) :
    Holds (m ++ x) { hs with
      buffer := copyAt hs.buffer hs.bufferLen x
      bufferLen := hs.bufferLen + x.length } := by
  obtain ⟨k, whole, hwhole, hm, hstate⟩ := h.split
  obtain ⟨htake, hlen⟩ := take_copyAt (hx.le.trans_eq h.buffer.symm)
  refine ⟨⟨k, whole, hwhole, ?_, hstate⟩, hx, hlen.trans h.buffer⟩
  rw [htake, hm, List.append_assoc]

/-- Topping up the buffer: afterwards it is empty, or there is no data left. -/
lemma Holds.fillBuffer (h : Holds m hs) (data : Bytes) :
    ∃ x rest hs', hs.fillBuffer data = (hs', rest) ∧ data = x ++ rest ∧ Holds (m ++ x) hs' ∧
      hs'.totalLen = hs.totalLen ∧ (hs'.bufferLen = 0 ∨ rest = []) := by
  have hlt := h.bufferLen
  unfold Sha256.fillBuffer
  by_cases hpos : hs.bufferLen > 0
  · rw [if_pos hpos]
    dsimp only
    have hsplit := (List.take_append_drop (min (64 - hs.bufferLen) data.length) data).symm
    have hlen : (data.take (min (64 - hs.bufferLen) data.length)).length
        = min (64 - hs.bufferLen) data.length := by
      rw [List.length_take, min_assoc, min_self]
    generalize data.take (min (64 - hs.bufferLen) data.length) = x at hsplit hlen ⊢
    generalize data.drop (min (64 - hs.bufferLen) data.length) = rest at hsplit ⊢
    rw [← hlen]
    have hlength := congrArg List.length hsplit
    rw [List.length_append] at hlength
    split_ifs with hfull
    · exact ⟨x, rest, _, rfl, hsplit, h.full hfull, rfl, Or.inl rfl⟩
    · refine ⟨x, rest, _, rfl, hsplit, h.grow (by omega), rfl, Or.inr ?_⟩
      exact List.length_eq_zero_iff.mp (by omega)
  · rw [if_neg hpos]
    refine ⟨[], data, hs, rfl, rfl, ?_, rfl, Or.inl (by omega)⟩
    rw [List.append_nil]
    exact h

/-- The hasher has been fed `m`, and counts its bytes. -/
structure Fed (m : Bytes) (hs : Sha256) : Prop extends Holds m hs where
  total : hs.totalLen = UInt64.ofNat m.length

lemma fed_new : Fed [] new := by
  refine ⟨⟨⟨0, [], rfl, rfl, ?_⟩, by decide, rfl⟩, rfl⟩
  rw [compressAll, blocks_of_lt (by decide)]
  rfl

/-- With an empty buffer, whole blocks are compressed, and the rest is kept. -/
lemma Holds.absorb (h : Holds m hs) (hempty : hs.bufferLen = 0) (data : Bytes) :
    ∃ state rest, absorb (data.length / 64) hs.state data = (state, rest) ∧
      (rest = [] → Holds (m ++ data) { hs with state }) ∧
      Holds (m ++ data)
        { hs with state, buffer := copyAt hs.buffer 0 rest, bufferLen := rest.length } := by
  obtain ⟨k, whole, hwhole, hm, hstate⟩ := h.split
  rw [hempty, List.take_zero, List.append_nil] at hm
  have hle : 64 * (data.length / 64) ≤ data.length := Nat.mul_div_le _ _
  have hmod := Nat.div_add_mod data.length 64
  have hmod_lt := Nat.mod_lt data.length (Nat.zero_lt_succ 63)
  have hsplit := (List.take_append_drop (64 * (data.length / 64)) data).symm
  have hfront : (data.take (64 * (data.length / 64))).length = 64 * (data.length / 64) := by
    rw [List.length_take]
    omega
  have hrest : (data.drop (64 * (data.length / 64))).length < 64 := by
    rw [List.length_drop]
    omega
  refine ⟨_, _, absorb_eq _ _ _ hle, ?_⟩
  generalize data.drop (64 * (data.length / 64)) = rest at hsplit hrest ⊢
  generalize data.take (64 * (data.length / 64)) = front at hsplit hfront ⊢
  have hcompressed : (blocks 64 front).foldl compress hs.state = compressAll (whole ++ front) := by
    rw [compressAll_append hwhole, hstate]
  have hlen : (whole ++ front).length = 64 * (k + data.length / 64) := by
    rw [List.length_append, hwhole, hfront, Nat.mul_add]
  obtain ⟨htake, hbuffer⟩ : (copyAt hs.buffer 0 rest).take rest.length = rest ∧
      (copyAt hs.buffer 0 rest).length = hs.buffer.length := by
    have hcopy : (copyAt hs.buffer 0 rest).take (0 + rest.length) = hs.buffer.take 0 ++ rest ∧
        (copyAt hs.buffer 0 rest).length = hs.buffer.length :=
      take_copyAt (by rw [h.buffer]; omega)
    rwa [Nat.zero_add, List.take_zero, List.nil_append] at hcopy
  constructor
  · rintro rfl
    refine ⟨⟨_, whole ++ front, hlen, ?_, hcompressed⟩, h.bufferLen, h.buffer⟩
    rw [hempty, List.take_zero, List.append_nil, hm, hsplit, List.append_nil]
  · refine ⟨⟨_, whole ++ front, hlen, ?_, hcompressed⟩, hrest, hbuffer.trans h.buffer⟩
    rw [htake, hm, hsplit, List.append_assoc]

/-- Feeding more. -/
theorem Fed.update (h : Fed m hs) (data : Bytes) : Fed (m ++ data) (hs.update data) := by
  have hcounted : Holds m { hs with totalLen := hs.totalLen + UInt64.ofNat data.length } :=
    ⟨h.split, h.bufferLen, h.buffer⟩
  obtain ⟨x, rest, hs₁, hfill, hdata, hholds, htotal, hor⟩ := hcounted.fillBuffer data
  have htotal' : hs₁.totalLen = UInt64.ofNat (m ++ data).length := by
    rw [htotal, h.total, List.length_append, UInt64.ofNat_add]
  unfold Sha256.update
  simp only [hfill]
  rcases hor with hempty | rfl
  · obtain ⟨state, rest', habsorb, hnil, hcons⟩ := hholds.absorb hempty rest
    rw [List.append_assoc, ← hdata] at hnil hcons
    simp only [habsorb]
    cases rest' with
    | nil => exact ⟨hnil rfl, htotal'⟩
    | cons b rest' => exact ⟨hcons, htotal'⟩
  · rw [List.append_nil] at hdata
    subst hdata
    exact ⟨hholds, htotal'⟩

lemma fed_foldl (pieces : List Bytes) (h : Fed m hs) :
    Fed (m ++ pieces.flatten) (pieces.foldl Sha256.update hs) := by
  induction pieces generalizing m hs with
  | nil =>
    rw [List.flatten_nil, List.append_nil]
    exact h
  | cons p pieces ih =>
    rw [List.flatten_cons, ← List.append_assoc, List.foldl_cons]
    exact ih (h.update p)

/-! ### The last blocks -/

/-- The rest of the message and the `0x80`, in a block of zeros. -/
lemma lastBlock_eq {rest : Bytes} (h : rest.length < 64) :
    copyAt (copyAt (List.replicate 64 0) 0 rest) rest.length [0x80]
      = rest ++ [0x80] ++ List.replicate (63 - rest.length) 0 := by
  have hfirst : copyAt (List.replicate 64 0) 0 rest
      = rest ++ List.replicate (64 - rest.length) 0 := by
    rw [copyAt, List.take_zero, List.nil_append, Nat.zero_add, List.drop_replicate]
  have hdrop : (rest ++ List.replicate (64 - rest.length) (0 : UInt8)).drop (rest.length + 1)
      = List.replicate (63 - rest.length) 0 := by
    rw [List.drop_length_add_append, List.drop_replicate]
    congr 1
    omega
  rw [hfirst, copyAt, List.take_left, List.length_singleton, hdrop]

/-- The length goes into the last eight bytes of a block. -/
lemma copyAt_length (front : Bytes) {bitLen : Bytes} {k : ℕ} (hfront : front.length + k = 64)
    (hk : 8 ≤ k) (hbits : bitLen.length = 8) :
    copyAt (front ++ List.replicate k 0) 56 bitLen = front ++ List.replicate (k - 8) 0 ++ bitLen := by
  have htake : (front ++ List.replicate k (0 : UInt8)).take 56
      = front ++ List.replicate (k - 8) 0 := by
    rw [List.take_append, List.take_of_length_le (by omega), List.take_replicate]
    congr 2
    omega
  have hdrop : (front ++ List.replicate k (0 : UInt8)).drop (56 + bitLen.length) = [] := by
    apply List.drop_of_length_le
    rw [List.length_append, List.length_replicate]
    omega
  rw [copyAt, htake, hdrop, List.append_nil]

/-- The least number of zeros that brings the length to 56 modulo 64. -/
lemma zeros_eq {n r k z : ℕ} (hn : n = 64 * k + r) (hr : r < 64)
    (hz : IsLeast {k | (n + 1 + k) % 64 = 56} z) :
    z = if r + 1 > 56 then 119 - r else 55 - r := by
  have hmem : (n + 1 + z) % 64 = 56 := hz.1
  have hleast : z ≤ if r + 1 > 56 then 119 - r else 55 - r := by
    apply hz.2
    show (n + 1 + if r + 1 > 56 then 119 - r else 55 - r) % 64 = 56
    split_ifs <;> omega
  split_ifs at hleast ⊢ with h <;> omega

lemma bytes_finalize (hs : Sha256) : hs.finalize.bytes = hs.finalState.toBytes := rfl

/-- What is compressed at the end are the last blocks of the padded message. -/
lemma Fed.finalState (h : Fed m hs) (hm : m.length < 2 ^ 61) {z : ℕ}
    (hz : IsLeast {k | (m.length + 1 + k) % 64 = 56} z) :
    hs.finalState = compressAll (padded m z) := by
  obtain ⟨k, whole, hwhole, hsplit, hstate⟩ := h.split
  have hr := h.bufferLen
  have hrest : (hs.buffer.take hs.bufferLen).length = hs.bufferLen := by
    rw [List.length_take, h.buffer]
    omega
  have hlen : m.length = 64 * k + hs.bufferLen := by
    rw [hsplit, List.length_append, hwhole, hrest]
  have hbits : (hs.totalLen * 8).toNat = 8 * m.length := by
    rw [h.total, UInt64.toNat_mul, UInt64.toNat_ofNat']
    change m.length % 2 ^ 64 * 8 % 2 ^ 64 = 8 * m.length
    omega
  have hpadded : ∀ tail, m ++ [0x80] ++ List.replicate z 0 ++ tail
      = whole ++ (hs.buffer.take hs.bufferLen ++ [0x80] ++ List.replicate z 0 ++ tail) := by
    intro tail
    rw [hsplit]
    simp only [List.append_assoc]
  have hblock := lastBlock_eq (hrest.trans_lt hr)
  rw [hrest] at hblock
  rw [padded, hpadded, compressAll_append hwhole, ← hstate]
  unfold Sha256.finalState
  dsimp only
  rw [hbits, ← beBytes64, hblock]
  have hz' := zeros_eq hlen hr hz
  generalize hs.buffer.take hs.bufferLen = rest at hrest
  by_cases htwo : hs.bufferLen + 1 > 56
  · rw [if_pos htwo]
    rw [if_pos htwo] at hz'
    have hfirst : (rest ++ [0x80] ++ List.replicate (63 - hs.bufferLen) 0).length = 64 := by
      simp only [List.length_append, List.length_singleton, List.length_replicate]
      omega
    have hsecond : copyAt (List.replicate 64 0) 56 (beBytes64 (8 * m.length))
        = List.replicate 56 0 ++ beBytes64 (8 * m.length) :=
      copyAt_length [] (k := 64) rfl (by decide) (length_beBytes64 _)
    have hzeros : List.replicate z (0 : UInt8)
        = List.replicate (63 - hs.bufferLen) 0 ++ List.replicate 56 0 := by
      rw [List.replicate_append_replicate]
      congr 1
      omega
    rw [hsecond, hzeros, ← List.append_assoc, List.append_assoc _ (List.replicate 56 0),
      blocks_block_append (by decide) hfirst, blocks_singleton (by decide)]
    · rfl
    · rw [List.length_append, List.length_replicate, length_beBytes64]
  · rw [if_neg htwo]
    rw [if_neg htwo] at hz'
    have hzeros : 63 - hs.bufferLen - 8 = z := by omega
    rw [copyAt_length _ _ _ (length_beBytes64 _), hzeros, blocks_singleton (by decide)]
    · rfl
    · simp only [List.length_append, List.length_singleton, List.length_replicate,
        length_beBytes64]
      omega
    · rw [List.length_append, List.length_singleton]
      omega
    · omega

end Sha256

lemma Digest.bytes_injective : Function.Injective Digest.bytes := by
  rintro ⟨bytes, hlen⟩ ⟨bytes', hlen'⟩ (rfl : bytes = bytes')
  rfl

/-- In whatever pieces a message is fed, the digest is the serialised state that compressing the
blocks of the padded message leads to, and so the one-shot hash. -/
theorem sha256_streaming_exact (pieces : List Bytes) {m : Bytes} {z : ℕ}
    (hm : m.length < 2 ^ 61) (hpieces : pieces.flatten = m)
    (hz : IsLeast {k | (m.length + 1 + k) % 64 = 56} z) :
    (pieces.foldl Sha256.update Sha256.new).finalize.bytes = (compressAll (padded m z)).toBytes ∧
      (pieces.foldl Sha256.update Sha256.new).finalize = hash m := by
  have key : ∀ pieces : List Bytes, pieces.flatten = m →
      (pieces.foldl Sha256.update Sha256.new).finalize.bytes
        = (compressAll (padded m z)).toBytes := by
    rintro pieces rfl
    have hfed := Sha256.fed_foldl pieces Sha256.fed_new
    rw [List.nil_append] at hfed
    rw [Sha256.bytes_finalize, hfed.finalState hm hz]
  refine ⟨key pieces hpieces, ?_⟩
  have hhash : (hash m).bytes = (compressAll (padded m z)).toBytes := by
    rw [hash]
    exact key [m] (List.append_nil m)
  exact Digest.bytes_injective ((key pieces hpieces).trans hhash.symm)

theorem sha256_streaming_abc :
    ([[97], [], [98, 99]].foldl Sha256.update Sha256.new).finalize = hash [97, 98, 99] :=
  (sha256_streaming_exact [[97], [], [98, 99]] (z := 52) (by decide) rfl
    ⟨rfl, fun k hk => by
      change (3 + 1 + k) % 64 = 56 at hk
      omega⟩).2

end TensorCache
