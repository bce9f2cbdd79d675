import TensorCache.Crc
import TensorCache.Lib.ShiftRegister

/-!
# What the checksum computes

The table-driven CRC-32C is the bit-serial one: a table entry stands for eight steps of a shift
register on the low byte, and the rest of the register only moves down. Since the polynomial has
its top bit set, no step of the register loses anything, and thirty-two bits can be told apart by
what they leave in it. Changes within four consecutive bytes are therefore always detected.
-/

namespace TensorCache

open Codec ShiftRegister

/-! ### The bit-serial checksum -/

/-- The bits of a byte, low bit first. -/
def bits (b : UInt8) : List Bool := (List.range 8).map b.toBitVec.getLsbD

/-- One bit of the reflected CRC with the polynomial `0x82F63B78`. -/
def crcBit (crc : UInt32) (b : Bool) : UInt32 :=
  if crc.toBitVec.getLsbD 0 != b then (crc >>> 1) ^^^ 0x82F63B78 else crc >>> 1

/-- The CRC-32C of a byte string, bit by bit. -/
def crc32cSerial (data : Bytes) : UInt32 :=
  (data.flatMap bits).foldl crcBit 0xFFFFFFFF ^^^ 0xFFFFFFFF

/-! ### The register -/

lemma toBitVec_crcBit (crc : UInt32) (b : Bool) :
    (crcBit crc b).toBitVec = feed crcPoly.toBitVec crc.toBitVec b := by
  have hlow : (crc.toBitVec ^^^ bit b).getLsbD 0 = (crc.toBitVec.getLsbD 0 != b) := by
    rw [BitVec.getLsbD_xor, getLsbD_bit (by decide)]
    simp
  have hshift : (crc.toBitVec ^^^ bit b) >>> 1 = crc.toBitVec >>> 1 := by
    rw [BitVec.ushiftRight_xor_distrib]
    cases b <;> simp [bit]
  rw [feed, step, hlow, hshift, crcBit]
  split_ifs <;> simp [crcPoly]

lemma toBitVec_crcShift (c : UInt32) :
    (crcShift c).toBitVec = step crcPoly.toBitVec c.toBitVec := by
  have hlow : c &&& 1 ≠ 0 ↔ c.toBitVec.getLsbD 0 = true := by
    rw [ne_eq, ← UInt32.toBitVec_inj, UInt32.toBitVec_and]
    change ¬c.toBitVec &&& 1#32 = 0#32 ↔ _
    rw [BitVec.and_one_eq_setWidth_ofBool_getLsbD]
    cases c.toBitVec.getLsbD 0 <;> simp
  rw [crcShift, step]
  simp only [hlow]
  split_ifs <;> simp

lemma toBitVec_iterate_crcShift (n : ℕ) (c : UInt32) :
    (crcShift^[n] c).toBitVec = (step crcPoly.toBitVec)^[n] c.toBitVec :=
  Function.Semiconj.iterate_right toBitVec_crcShift n c

lemma toBitVec_toUInt32 (b : UInt8) : b.toUInt32.toBitVec = ofBits (bits b) := by
  refine BitVec.eq_of_getLsbD_eq fun i hi => ?_
  rw [getLsbD_ofBits (by simp [bits])]
  by_cases h8 : i < 8
  · simp [bits, h8, hi]
  · simp [bits, h8, BitVec.getLsbD_of_ge b.toBitVec i (not_lt.mp h8)]

/-- The table gives eight steps at once. -/
lemma crcByte_eq (c : UInt32) (b : UInt8) : crcByte c b = crcShift^[8] (c ^^^ b.toUInt32) := by
  have hentry : ∀ x : UInt32, x.toNat < 256 → crcTable.getD x.toNat 0 = crcShift^[8] x := by
    intro x hx
    rw [crcTable, List.getD_eq_getElem?_getD, List.getElem?_map, List.getElem?_range hx]
    simp only [Option.map_some, Option.getD_some, UInt32.ofNat_toNat, crcTableEntry]
  have hindex : ((c ^^^ b.toUInt32) &&& 0x00FF).toNat < 256 := by
    rw [UInt32.toNat_and]
    exact Nat.lt_succ_of_le Nat.and_le_right
  have hmask : ∀ x : UInt32, (x &&& 0x00FF).toBitVec = low 8 x.toBitVec := fun x => rfl
  have hbyte : b.toUInt32.toBitVec >>> 8 = 0#32 := by
    refine BitVec.eq_of_getLsbD_eq fun i hi => ?_
    simp
  rw [crcByte, hentry _ hindex, ← UInt32.toBitVec_inj, UInt32.toBitVec_xor,
    toBitVec_iterate_crcShift, toBitVec_iterate_crcShift, hmask,
    iterate_step_low _ 8 (c ^^^ b.toUInt32).toBitVec, UInt32.toBitVec_xor,
    BitVec.ushiftRight_xor_distrib, hbyte, BitVec.xor_zero]
  rfl

/-- A byte is fed in bit by bit. -/
lemma toBitVec_crcByte (c : UInt32) (b : UInt8) :
    (crcByte c b).toBitVec = (bits b).foldl (feed crcPoly.toBitVec) c.toBitVec := by
  rw [crcByte_eq, toBitVec_iterate_crcShift, UInt32.toBitVec_xor, toBitVec_toUInt32,
    foldl_feed _ (by simp [bits])]
  simp [bits]

lemma toBitVec_foldl_crcByte (data : Bytes) (c : UInt32) :
    (data.foldl crcByte c).toBitVec
      = (data.flatMap bits).foldl (feed crcPoly.toBitVec) c.toBitVec := by
  induction data generalizing c with
  | nil => rfl
  | cons b data ih =>
    rw [List.foldl_cons, ih, toBitVec_crcByte, List.flatMap_cons, List.foldl_append]

lemma toBitVec_foldl_crcBit (bs : List Bool) (c : UInt32) :
    (bs.foldl crcBit c).toBitVec = bs.foldl (feed crcPoly.toBitVec) c.toBitVec := by
  induction bs generalizing c with
  | nil => rfl
  | cons b bs ih => rw [List.foldl_cons, ih, toBitVec_crcBit, List.foldl_cons]

/-- The checksum is the bit-serial one, and it can be continued. -/
theorem crc32c_exact :
    (∀ data, crc32c data = crc32cSerial data) ∧
      ∀ a b, crc32cContinue (crc32c a) b = crc32c (a ++ b) := by
  constructor
  · intro data
    have hfold : data.foldl crcByte 0xFFFFFFFF = (data.flatMap bits).foldl crcBit 0xFFFFFFFF := by
      rw [← UInt32.toBitVec_inj, toBitVec_foldl_crcByte, toBitVec_foldl_crcBit]
    rw [crc32cSerial, ← hfold]
    rfl
  · intro a b
    simp only [crc32c, crc32cContinue, List.foldl_append]
    rw [UInt32.xor_assoc, UInt32.xor_self, UInt32.xor_zero]

/-! ### Short corruption -/

/-- Two byte strings of the same length that differ, and only within four consecutive bytes. -/
structure Altered (a b : Bytes) : Prop where
  length : a.length = b.length
  ne : a ≠ b
  window : ∃ i, ∀ j, j < i ∨ i + 4 ≤ j → a[j]? = b[j]?

lemma bits_injective : Function.Injective bits := by
  intro a b h
  have h32 : a.toUInt32.toBitVec = b.toUInt32.toBitVec := by
    rw [toBitVec_toUInt32, toBitVec_toUInt32, h]
  have := congrArg BitVec.toNat h32
  simpa [← UInt8.toNat_inj] using this

@[simp] lemma length_bits (b : UInt8) : (bits b).length = 8 := by simp [bits]

lemma length_flatMap_bits (data : Bytes) : (data.flatMap bits).length = 8 * data.length := by
  induction data with
  | nil => rfl
  | cons b data ih =>
    rw [List.flatMap_cons, List.length_append, ih, length_bits, List.length_cons]
    omega

lemma flatMap_bits_injective {a b : Bytes} (h : a.flatMap bits = b.flatMap bits) : a = b := by
  induction a generalizing b with
  | nil =>
    have hlen := congrArg List.length h
    rw [length_flatMap_bits, length_flatMap_bits] at hlen
    exact (List.length_eq_zero_iff.mp (by simpa using hlen.symm)).symm
  | cons x a ih =>
    cases b with
    | nil => simp [bits] at h
    | cons y b =>
      rw [List.flatMap_cons, List.flatMap_cons] at h
      obtain ⟨hhead, htail⟩ := List.append_inj h (by simp)
      rw [bits_injective hhead, ih htail]

lemma top_crcPoly : crcPoly.toBitVec.getLsbD (32 - 1) = true := by decide

/-- Different registers stay different over the same bytes. -/
lemma foldl_crcByte_injective (data : Bytes) : Function.Injective (data.foldl crcByte) := by
  intro c c' h
  have hbits := congrArg UInt32.toBitVec h
  rw [toBitVec_foldl_crcByte, toBitVec_foldl_crcByte] at hbits
  exact UInt32.toBitVec_inj.mp (foldl_feed_injective_left _ top_crcPoly _ hbits)

/-- Four bytes can be told apart by what they leave in the register. -/
lemma eq_of_foldl_crcByte {a b : Bytes} (ha : a.length ≤ 4) (hlen : b.length = a.length)
    {c : UInt32} (h : a.foldl crcByte c = b.foldl crcByte c) : a = b := by
  have hbits := congrArg UInt32.toBitVec h
  rw [toBitVec_foldl_crcByte, toBitVec_foldl_crcByte] at hbits
  refine flatMap_bits_injective (foldl_feed_injective _ top_crcPoly ?_ ?_ hbits)
  · rw [length_flatMap_bits]
    omega
  · rw [length_flatMap_bits, length_flatMap_bits, hlen]

/-- Whole bytes can be put together from their bits. -/
lemma exists_flatMap_bits (n : ℕ) {bs : List Bool} (h : bs.length = 8 * n) :
    ∃ x : Bytes, x.length = n ∧ x.flatMap bits = bs := by
  induction n generalizing bs with
  | zero => exact ⟨[], rfl, (List.length_eq_zero_iff.mp h).symm⟩
  | succ n ih =>
    obtain ⟨hd, tl, rfl, hhd⟩ : ∃ hd tl, bs = hd ++ tl ∧ hd.length = 8 :=
      ⟨bs.take 8, bs.drop 8, (List.take_append_drop 8 bs).symm, by rw [List.length_take]; omega⟩
    have htl : tl.length = 8 * n := by
      rw [List.length_append] at h
      omega
    obtain ⟨x, hx, hbits⟩ := ih htl
    have hbyte : bits (UInt8.ofBitVec (ofBits hd)) = hd := by
      refine List.ext_getElem (by simp [hhd]) fun i hi hi' => ?_
      simp only [bits, List.getElem_map, List.getElem_range, getLsbD_ofBits hhd.le]
      simp [hi']
    refine ⟨UInt8.ofBitVec (ofBits hd) :: x, by rw [List.length_cons, hx], ?_⟩
    rw [List.flatMap_cons, hbyte, hbits]

/-- Four bytes lead from any register to any other. -/
lemma exists_foldl_crcByte (c t : UInt32) : ∃ x : Bytes, x.length = 4 ∧ x.foldl crcByte c = t := by
  obtain ⟨bs, hlen, hfeed⟩ := exists_foldl_feed _ top_crcPoly c.toBitVec t.toBitVec
  obtain ⟨x, hx, hbits⟩ := exists_flatMap_bits 4 hlen
  refine ⟨x, hx, UInt32.toBitVec_inj.mp ?_⟩
  rw [toBitVec_foldl_crcByte, hbits, hfeed]

lemma foldl_crcByte_surjective (data : Bytes) : Function.Surjective (data.foldl crcByte) := by
  intro t
  obtain ⟨c, hc⟩ := foldl_feed_surjective _ top_crcPoly (data.flatMap bits) t.toBitVec
  refine ⟨UInt32.ofBitVec c, UInt32.toBitVec_inj.mp ?_⟩
  rw [toBitVec_foldl_crcByte]
  exact hc

/-- What is before and behind the window is the same. -/
lemma Altered.split {a b : Bytes} (h : Altered a b) :
    ∃ before x y behind, a = before ++ x ++ behind ∧ b = before ++ y ++ behind ∧ x.length ≤ 4 ∧
      y.length = x.length ∧ x ≠ y := by
  obtain ⟨i, hi⟩ := h.window
  have hbefore : a.take i = b.take i := by
    refine List.ext_getElem? fun j => ?_
    rw [List.getElem?_take, List.getElem?_take]
    split_ifs with hj
    · exact hi j (Or.inl hj)
    · rfl
  have hbehind : a.drop (i + 4) = b.drop (i + 4) := by
    refine List.ext_getElem? fun j => ?_
    rw [List.getElem?_drop, List.getElem?_drop]
    exact hi _ (Or.inr (Nat.le_add_right _ _))
  have hsplit : ∀ c : Bytes, c = c.take i ++ (c.drop i).take 4 ++ c.drop (i + 4) := by
    intro c
    rw [List.append_assoc, ← List.drop_drop, List.take_append_drop, List.take_append_drop]
  refine ⟨a.take i, (a.drop i).take 4, (b.drop i).take 4, a.drop (i + 4), hsplit a, ?_, ?_, ?_, ?_⟩
  · rw [hbefore, hbehind]
    exact hsplit b
  · exact List.length_take_le 4 _
  · rw [List.length_take, List.length_take, List.length_drop, List.length_drop, h.length]
  · intro hx
    apply h.ne
    rw [hsplit a, hsplit b, hbefore, hbehind, hx]

/-- Changes within four consecutive bytes change the checksum. -/
theorem Altered.crc_ne {a b : Bytes} (h : Altered a b) : crc32c a ≠ crc32c b := by
  obtain ⟨before, x, y, behind, rfl, rfl, hx, hlen, hne⟩ := h.split
  intro hcrc
  simp only [crc32c, crc32cContinue, List.foldl_append] at hcrc
  have hfold := foldl_crcByte_injective behind (UInt32.xor_left_inj _ |>.mp hcrc)
  exact hne (eq_of_foldl_crcByte hx hlen hfold)

end TensorCache
