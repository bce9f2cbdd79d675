import Mathlib.Data.List.Basic
import Mathlib.Data.Nat.Notation
import Mathlib.Order.Basic

/-!
# Lists in blocks

A list cut into blocks of a fixed length; what does not fill a block is left out. Cutting goes
block by block from the front, so a whole number of blocks can be cut off separately.
-/

namespace Blocks

variable {α : Type*} {n : ℕ}

def blocks (n : ℕ) (l : List α) : List (List α) :=
  (List.range (l.length / n)).map fun i => (l.drop (n * i)).take n

lemma blocks_of_lt {l : List α} (h : l.length < n) : blocks n l = [] := by
  rw [blocks, Nat.div_eq_of_lt h]
  rfl

/-- The first block comes off the front. -/
lemma blocks_block_append (hn : 0 < n) {b : List α} (hb : b.length = n) (l : List α) :
    blocks n (b ++ l) = b :: blocks n l := by
  have hdiv : (b ++ l).length / n = l.length / n + 1 := by
    rw [List.length_append, hb, Nat.add_div_left _ hn]
  have hdrop : ∀ i, (b ++ l).drop (n * (i + 1)) = l.drop (n * i) := by
    intro i
    rw [Nat.mul_add, Nat.mul_one, Nat.add_comm, ← hb, List.drop_length_add_append]
  rw [blocks, hdiv, List.range_succ_eq_map, List.map_cons, List.map_map, Nat.mul_zero,
    List.drop_zero, ← hb, List.take_left, hb, blocks]
  refine congrArg (b :: ·) (List.map_congr_left fun i _ => ?_)
  rw [Function.comp_apply, Nat.succ_eq_add_one, hdrop]

/-- Whole blocks can be cut off separately. -/
theorem blocks_append (hn : 0 < n) {k : ℕ} {a : List α} (ha : a.length = n * k) (l : List α) :
    blocks n (a ++ l) = blocks n a ++ blocks n l := by
  induction k generalizing a with
  | zero =>
    cases List.length_eq_zero_iff.mp ha
    rw [List.nil_append, blocks_of_lt (l := []) hn, List.nil_append]
  | succ k ih =>
    obtain ⟨b, a', rfl, hb⟩ : ∃ b a', a = b ++ a' ∧ b.length = n := by
      refine ⟨a.take n, a.drop n, (List.take_append_drop n a).symm, ?_⟩
      rw [List.length_take, ha, Nat.mul_succ]
      omega
    have ha' : a'.length = n * k := by
      rw [List.length_append, Nat.mul_succ] at ha
      omega
    rw [List.append_assoc, blocks_block_append hn hb, blocks_block_append hn hb, ih ha',
      List.cons_append]

lemma blocks_singleton (hn : 0 < n) {b : List α} (hb : b.length = n) : blocks n b = [b] := by
  have h := blocks_block_append hn hb []
  rwa [List.append_nil, blocks_of_lt (l := []) hn] at h

end Blocks
