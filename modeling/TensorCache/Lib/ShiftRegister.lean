import Mathlib.Data.BitVec
import Mathlib.Logic.Function.Iterate

/-!
# Linear feedback shift registers

A register of `w` bits is shifted down; if the bit that falls off is set, a polynomial is added.
A step is linear in the register, and it loses nothing if the polynomial has its top bit set. Bits
that are fed in one by one can just as well be added to the register all at once beforehand, as
long as there is room for them.
-/

namespace ShiftRegister

variable {w : ℕ} (p : BitVec w)

def step (c : BitVec w) : BitVec w := (c >>> 1) ^^^ (if c.getLsbD 0 then p else 0#w)

lemma step_xor (a b : BitVec w) : step p (a ^^^ b) = step p a ^^^ step p b := by
  simp only [step, BitVec.ushiftRight_xor_distrib, BitVec.getLsbD_xor]
  cases a.getLsbD 0 <;> cases b.getLsbD 0
  · simp
  · simp [BitVec.xor_assoc]
  · simp only [Bool.xor_false, if_true, Bool.false_eq_true, if_false, BitVec.xor_zero]
    ac_rfl
  · simp only [Bool.xor_true, Bool.not_true, Bool.false_eq_true, if_false, if_true,
      BitVec.xor_zero]
    rw [show a >>> 1 ^^^ p ^^^ (b >>> 1 ^^^ p) = a >>> 1 ^^^ b >>> 1 ^^^ (p ^^^ p) by ac_rfl,
      BitVec.xor_self, BitVec.xor_zero]

lemma iterate_step_xor (n : ℕ) (a b : BitVec w) :
    (step p)^[n] (a ^^^ b) = (step p)^[n] a ^^^ (step p)^[n] b := by
  induction n generalizing a b with
  | zero => rfl
  | succ n ih => rw [Function.iterate_succ_apply, step_xor, ih]; rfl

/-! ### Nothing is lost -/

lemma eq_zero_of_step (hp : p.getLsbD (w - 1) = true) {c : BitVec w} (h : step p c = 0#w) :
    c = 0#w := by
  have hbit : ∀ i, (step p c).getLsbD i = false := fun i => by simp [h]
  simp only [step, BitVec.getLsbD_xor, BitVec.getLsbD_ushiftRight] at hbit
  -- the polynomial would show in the top bit, where the shifted register has nothing
  have hlow : c.getLsbD 0 = false := by
    by_contra hset
    have htop := hbit (w - 1)
    rw [if_pos (by simpa using hset), hp, BitVec.getLsbD_of_ge c _ (by omega)] at htop
    cases htop
  refine BitVec.eq_of_getLsbD_eq fun i hi => ?_
  rw [BitVec.getLsbD_zero]
  cases i with
  | zero => exact hlow
  | succ i =>
    have hi := hbit i
    rw [hlow] at hi
    simpa [Nat.add_comm] using hi

lemma step_injective (hp : p.getLsbD (w - 1) = true) : Function.Injective (step p) := by
  intro a b h
  have hzero : step p (a ^^^ b) = 0#w := by rw [step_xor, h, BitVec.xor_self]
  exact BitVec.xor_eq_zero_iff.mp (eq_zero_of_step p hp hzero)

/-! ### Bits with room below them -/

/-- A register whose top bit is clear can be doubled. -/
lemma toNat_mul_two_lt (hw : 0 < w) {c : BitVec w} (h : c.getLsbD (w - 1) = false) :
    c.toNat * 2 < 2 ^ w := by
  have := BitVec.toNat_lt_of_msb_false ((BitVec.msb_eq_getLsbD_last c).trans h)
  have hpow : 2 ^ w = 2 * 2 ^ (w - 1) := by rw [← pow_succ', Nat.sub_add_cancel hw]
  omega

/-- A shifted register moves down if its top bit was clear before the shift. -/
lemma step_shiftLeft {c : BitVec w} (h : c.toNat * 2 < 2 ^ w) : step p (c <<< 1) = c := by
  have hlow : (c <<< 1).getLsbD 0 = false := by simp
  rw [step, hlow, if_neg Bool.false_ne_true, BitVec.xor_zero]
  apply BitVec.eq_of_toNat_eq
  rw [BitVec.toNat_ushiftRight, BitVec.toNat_shiftLeft, Nat.shiftLeft_eq, pow_one,
    Nat.mod_eq_of_lt h, Nat.shiftRight_eq_div_pow, pow_one, Nat.mul_div_cancel _ Nat.two_pos]

lemma iterate_step_shiftLeft {c : BitVec w} {k : ℕ} (h : c.toNat * 2 ^ k < 2 ^ w) :
    (step p)^[k] (c <<< k) = c := by
  induction k with
  | zero => simp
  | succ k ih =>
    rw [pow_succ, ← Nat.mul_assoc] at h
    have hk : c.toNat * 2 ^ k < 2 ^ w := by omega
    have hshift : (c <<< k).toNat = c.toNat * 2 ^ k := by
      rw [BitVec.toNat_shiftLeft, Nat.shiftLeft_eq, Nat.mod_eq_of_lt hk]
    rw [Function.iterate_succ_apply, BitVec.shiftLeft_add, step_shiftLeft p (by rw [hshift]; exact h)]
    exact ih hk

/-- The low bits of a register. -/
def low (k : ℕ) (c : BitVec w) : BitVec w := c &&& BitVec.ofNat w (2 ^ k - 1)

lemma low_xor_high (k : ℕ) (c : BitVec w) : low k c ^^^ ((c >>> k) <<< k) = c := by
  refine BitVec.eq_of_getLsbD_eq fun i hi => ?_
  simp only [low, BitVec.getLsbD_xor, BitVec.getLsbD_and, BitVec.getLsbD_ofNat,
    Nat.testBit_two_pow_sub_one, BitVec.getLsbD_shiftLeft, BitVec.getLsbD_ushiftRight]
  by_cases hik : i < k
  · simp [hik, hi]
  · rw [Nat.add_sub_cancel' (not_lt.mp hik)]
    simp [hik, hi]

/-- What `k` steps make of a register depends on its low bits only, up to the shift. -/
theorem iterate_step_low (k : ℕ) (c : BitVec w) :
    (step p)^[k] c = (step p)^[k] (low k c) ^^^ (c >>> k) := by
  have hroom : (c >>> k).toNat * 2 ^ k < 2 ^ w := by
    rw [BitVec.toNat_ushiftRight, Nat.shiftRight_eq_div_pow]
    exact (Nat.div_mul_le_self _ _).trans_lt c.isLt
  calc (step p)^[k] c
      = (step p)^[k] (low k c ^^^ ((c >>> k) <<< k)) := by rw [low_xor_high]
    _ = (step p)^[k] (low k c) ^^^ (step p)^[k] ((c >>> k) <<< k) := iterate_step_xor p k _ _
    _ = (step p)^[k] (low k c) ^^^ (c >>> k) := by rw [iterate_step_shiftLeft p hroom]

/-! ### Feeding bits -/

/-- A single bit as a register. -/
def bit (b : Bool) : BitVec w := if b then 1#w else 0#w

/-- Add a bit at the low end, and step. -/
def feed (c : BitVec w) (b : Bool) : BitVec w := step p (c ^^^ bit b)

/-- The register that holds the bits, the first of them lowest. -/
def ofBits : List Bool → BitVec w
  | [] => 0#w
  | b :: bs => (ofBits bs <<< 1) ^^^ bit b

lemma getLsbD_bit (hw : 0 < w) (b : Bool) (i : ℕ) :
    (bit b : BitVec w).getLsbD i = (decide (i = 0) && b) := by
  cases b
  · simp [bit]
  · simp only [bit, if_true, Bool.and_true]
    rw [BitVec.getLsbD_one]
    simp [hw]

lemma getLsbD_ofBits {bs : List Bool} (h : bs.length ≤ w) (i : ℕ) :
    (ofBits bs : BitVec w).getLsbD i = bs.getD i false := by
  induction bs generalizing i with
  | nil => simp [ofBits]
  | cons b bs ih =>
    rw [List.length_cons] at h
    rw [ofBits, BitVec.getLsbD_xor, getLsbD_bit (by omega), BitVec.getLsbD_shiftLeft]
    cases i with
    | zero => simp
    | succ i =>
      rw [Nat.add_sub_cancel, ih (by omega), List.getD_cons_succ]
      by_cases hi : i + 1 < w
      · simp [hi]
      · have : bs.length ≤ i := by omega
        simp [hi, this]

/-- Bits that fit into the register can be read off it. -/
lemma ofBits_injective {bs bs' : List Bool} (h : bs.length ≤ w) (hlen : bs'.length = bs.length)
    (heq : (ofBits bs : BitVec w) = ofBits bs') : bs = bs' := by
  refine List.ext_getElem hlen.symm fun i hi hi' => ?_
  have hbit := congrArg (fun c : BitVec w => c.getLsbD i) heq
  simp only [getLsbD_ofBits h, getLsbD_ofBits (hlen.trans_le h)] at hbit
  simpa [hi, hi'] using hbit

lemma toNat_ofBits_lt {bs : List Bool} (h : bs.length < w) :
    (ofBits bs : BitVec w).toNat * 2 < 2 ^ w := by
  apply toNat_mul_two_lt (by omega)
  rw [getLsbD_ofBits h.le]
  simp [show bs.length ≤ w - 1 by omega]

/-- Feeding bits one by one is adding them all and then stepping. -/
theorem foldl_feed {bs : List Bool} (h : bs.length ≤ w) (c : BitVec w) :
    bs.foldl (feed p) c = (step p)^[bs.length] (c ^^^ ofBits bs) := by
  induction bs generalizing c with
  | nil => simp [ofBits]
  | cons b bs ih =>
    have hbs : bs.length < w := h
    have hsplit : c ^^^ ofBits (b :: bs) = (c ^^^ bit b) ^^^ (ofBits bs <<< 1) := by
      rw [ofBits]
      ac_rfl
    rw [List.foldl_cons, ih hbs.le, List.length_cons, Function.iterate_succ_apply, hsplit,
      step_xor p (c ^^^ bit b), step_shiftLeft p (toNat_ofBits_lt hbs)]
    rfl

/-- What is fed in can be told apart, from the same register, as long as there is room. -/
theorem foldl_feed_injective (hp : p.getLsbD (w - 1) = true) {bs bs' : List Bool}
    (h : bs.length ≤ w) (hlen : bs'.length = bs.length) {c : BitVec w}
    (heq : bs.foldl (feed p) c = bs'.foldl (feed p) c) : bs = bs' := by
  rw [foldl_feed p h, foldl_feed p (hlen.trans_le h), hlen] at heq
  have hsame := (step_injective p hp).iterate bs.length heq
  refine ofBits_injective h hlen ?_
  have := congrArg (c ^^^ ·) hsame
  simpa only [← BitVec.xor_assoc, BitVec.xor_self, BitVec.zero_xor] using this

/-- Registers that differ stay different, whatever is fed into both. -/
theorem foldl_feed_injective_left (hp : p.getLsbD (w - 1) = true) (bs : List Bool) :
    Function.Injective (bs.foldl (feed p)) := by
  induction bs with
  | nil => exact fun _ _ h => h
  | cons b bs ih =>
    intro c c' h
    have hfeed := step_injective p hp (ih h)
    have := congrArg (· ^^^ (bit b : BitVec w)) hfeed
    simpa only [BitVec.xor_assoc, BitVec.xor_self, BitVec.xor_zero] using this

/-! ### Everything can be reached -/

lemma step_surjective (hp : p.getLsbD (w - 1) = true) : Function.Surjective (step p) := by
  have hw : 0 < w := by
    by_contra h
    rw [BitVec.getLsbD_of_ge p _ (by omega)] at hp
    cases hp
  intro t
  cases ht : t.getLsbD (w - 1) with
  | false => exact ⟨t <<< 1, step_shiftLeft p (toNat_mul_two_lt hw ht)⟩
  | true =>
    have hone : step p (bit true) = p := by
      rw [step, getLsbD_bit hw]
      refine BitVec.eq_of_getLsbD_eq fun i hi => ?_
      simp [getLsbD_bit hw]
    have hclear : (t ^^^ p).getLsbD (w - 1) = false := by rw [BitVec.getLsbD_xor, ht, hp]; rfl
    refine ⟨((t ^^^ p) <<< 1) ^^^ bit true, ?_⟩
    rw [step_xor, step_shiftLeft p (toNat_mul_two_lt hw hclear), hone, BitVec.xor_assoc, BitVec.xor_self,
      BitVec.xor_zero]

lemma foldl_feed_surjective (hp : p.getLsbD (w - 1) = true) (bs : List Bool) :
    Function.Surjective (bs.foldl (feed p)) := by
  induction bs with
  | nil => exact fun c => ⟨c, rfl⟩
  | cons b bs ih =>
    intro t
    obtain ⟨c, hc⟩ := ih t
    obtain ⟨v, hv⟩ := step_surjective p hp c
    refine ⟨v ^^^ bit b, ?_⟩
    dsimp only at hc ⊢
    rw [List.foldl_cons, feed, BitVec.xor_assoc, BitVec.xor_self, BitVec.xor_zero, hv, hc]

/-- A whole register of bits leads from any register to any other. -/
theorem exists_foldl_feed (hp : p.getLsbD (w - 1) = true) (c t : BitVec w) :
    ∃ bs : List Bool, bs.length = w ∧ bs.foldl (feed p) c = t := by
  obtain ⟨v, hv⟩ := (step_surjective p hp).iterate w t
  have hbits : ofBits ((List.range w).map (c ^^^ v).getLsbD) = c ^^^ v := by
    refine BitVec.eq_of_getLsbD_eq fun i hi => ?_
    rw [getLsbD_ofBits (by simp)]
    simp [hi]
  refine ⟨(List.range w).map (c ^^^ v).getLsbD, by simp, ?_⟩
  rw [foldl_feed p (by simp), hbits, ← BitVec.xor_assoc, BitVec.xor_self, BitVec.zero_xor,
    List.length_map, List.length_range, hv]

end ShiftRegister
