import Mathlib.Algebra.BigOperators.Group.Finset.Basic
import Mathlib.Data.Finset.Dedup
import TensorCache.Storage.Arena

/-!
# The arena refines a multiset of digests

The abstract arena is a multiset of digests: acquiring a block adds its digest, releasing takes
one occurrence away, if there is one. Every sequence of operations on a new arena keeps the two in
step (`arena_refines`), so what the arena answers is what the multiset says.
-/

namespace TensorCache

open Codec

/-- The operations on an arena that change it. -/
inductive ArenaOp where
  | acquire (block : Bytes)
  | acquireAt (block : Bytes) (offset : UInt64)
  | release (contentHash : Digest)

namespace ArenaOp

/-- What an operation does to the arena. -/
def exec (a : BlockArena) : ArenaOp → BlockArena
  | acquire block => (a.acquire block).2
  | acquireAt block offset => (a.acquireAt block offset).2
  | release h => (a.release h).2

/-- What an operation does to the multiset: a release of an absent digest does nothing. -/
def effect (m : Multiset Digest) : ArenaOp → Multiset Digest
  | acquire block => hash block ::ₘ m
  | acquireAt block _ => hash block ::ₘ m
  | release h => m.erase h

/-- The block an operation acquires. -/
def acquired : ArenaOp → Option Bytes
  | acquire block => some block
  | acquireAt block _ => some block
  | release _ => none

end ArenaOp

/-- The arena after operations on a new one. -/
def arenaAfter (ops : List ArenaOp) : BlockArena := ops.foldl ArenaOp.exec BlockArena.new

/-- The references after operations: acquires, less the releases of digests that were there. -/
def refsAfter (ops : List ArenaOp) : Multiset Digest := ops.foldl ArenaOp.effect 0

/-- The blocks that operations acquire. -/
def acquiredBlocks (ops : List ArenaOp) : Set Bytes := { b | b ∈ ops.filterMap ArenaOp.acquired }

/-- An arena answers as a multiset of references to blocks of `S` says. -/
structure Refines (S : Set Bytes) (a : BlockArena) (m : Multiset Digest) : Prop where
  contains : ∀ h, a.contains h = true ↔ 0 < m.count h
  get : ∀ h b, a.get h = .ok b ↔ 0 < m.count h ∧ b ∈ S ∧ hash b = h
  get_succeeds : ∀ h, (∃ b, a.get h = .ok b) ↔ 0 < m.count h
  blockCount : a.blockCount = m.toFinset.card
  bytesUsed : ∀ content : Digest → Bytes, (∀ h ∈ m, a.get h = .ok (content h)) →
    a.bytesUsed = ∑ h ∈ m.toFinset, (content h).length
  release : ∀ h, (a.release h).1 = true ↔ m.count h = 1
  /-- The `unwrap` of `acquire` finds a reference count. -/
  unwrap : ∀ h, (a.blocks.lookup h).isSome → (a.refs.lookup h).isSome
  /-- The subtractions of `release` do not go below zero. -/
  refs_pos : ∀ h n, a.refs.lookup h = some n → 1 ≤ n
  bytes_le : ∀ h b, a.blocks.lookup h = some b → b.length ≤ a.bytes

variable {S : Set Bytes} {a : BlockArena} {m : Multiset Digest}

/-! ### Reading the invariant -/

namespace BlockArena

lemma get_eq_ok {h : Digest} {b : Bytes} : a.get h = .ok b ↔ a.blocks.lookup h = some b := by
  unfold get
  cases a.blocks.lookup h <;> simp

lemma Wf.lookup_iff (ha : a.Wf S) (h : Digest) :
    (∃ b, a.blocks.lookup h = some b) ↔ 0 < a.count h := by
  rw [← ha.contains_iff, contains, Option.isSome_iff_exists]

/-- The keys of the arena are the digests that are counted. -/
lemma Wf.keys_toFinset (ha : a.Wf S) (hcount : ∀ h, a.count h = m.count h) :
    a.blocks.keys.toFinset = m.toFinset := by
  ext h
  rw [List.mem_toFinset, ← AList.mem_keys, ← AList.lookup_isSome, Multiset.mem_toFinset,
    ← Multiset.count_pos, ← hcount, ← ha.contains_iff]
  rfl

/-- The freeing release is that of the last reference. -/
lemma Wf.release_eq_true (ha : a.Wf S) (h : Digest) : (a.release h).1 = true ↔ a.count h = 1 := by
  cases hr : a.refs.lookup h with
  | none => simp [release_of_none hr, count, hr]
  | some n =>
    obtain ⟨b, hb⟩ := ha.block_of_refs hr
    rcases n with _ | _ | n
    · exact absurd (ha.pos h 0 hr) (by omega)
    · simp [release_of_last hr hb, count, hr]
    · simp [release_of_shared hr, count, hr]

/-- An arena in step with a multiset answers as the multiset says. -/
lemma Wf.refines (ha : a.Wf S) (hS : CollisionFree S) (hcount : ∀ h, a.count h = m.count h) :
    Refines S a m where
  contains h := by rw [ha.contains_iff, hcount]
  get h b := by
    constructor
    · intro hget
      rw [get_eq_ok] at hget
      obtain ⟨hhash, hb⟩ := ha.content h b hget
      exact ⟨by rw [← hcount, ← ha.lookup_iff]; exact ⟨b, hget⟩, hb, hhash⟩
    · rintro ⟨hpos, hb, rfl⟩
      exact ha.get hS hb (by rw [hcount]; exact hpos)
  get_succeeds h := by
    simp only [get_eq_ok]
    rw [ha.lookup_iff, hcount]
  blockCount := by
    rw [← ha.keys_toFinset hcount, List.toFinset_card_of_nodup a.blocks.keys_nodup]
    rfl
  bytesUsed content hcontent := by
    rw [← ha.keys_toFinset hcount, List.sum_toFinset _ a.blocks.keys_nodup, bytesUsed, ha.total,
      AList.total]
    change _ = ((a.blocks.entries.map Sigma.fst).map fun h => (content h).length).sum
    rw [List.map_map]
    congr 1
    refine List.map_congr_left fun x hx => ?_
    have hlook : a.blocks.lookup x.1 = some x.2 := AList.mem_entries_iff.mp hx
    have hmem : x.1 ∈ m := by
      rw [← Multiset.count_pos, ← hcount, ← ha.lookup_iff]
      exact ⟨x.2, hlook⟩
    have hget := get_eq_ok.mp (hcontent x.1 hmem)
    rw [hlook] at hget
    rw [Function.comp_apply, ← Option.some.inj hget]
  release h := by rw [ha.release_eq_true, hcount]
  unwrap h hb := by rw [ha.keys]; exact hb
  refs_pos h n hn := ha.pos h n hn
  bytes_le h b hb := by
    rw [ha.total]
    exact AList.le_total (fun _ b => b.length) hb

end BlockArena

/-! ### Runs -/

/-- One operation keeps the arena and the multiset in step. -/
lemma ArenaOp.step (ha : a.Wf S) (hcount : ∀ h, a.count h = m.count h) (op : ArenaOp)
    (hop : ∀ b ∈ op.acquired, b ∈ S) :
    (op.exec a).Wf S ∧ ∀ h, (op.exec a).count h = (op.effect m).count h := by
  have hacquire : ∀ b ∈ S, (a.acquire b).2.Wf S ∧
      ∀ h, (a.acquire b).2.count h = (hash b ::ₘ m).count h := by
    intro b hb
    refine ⟨ha.acquire hb, fun h => ?_⟩
    rw [ha.count_acquire, hcount, Multiset.count_cons]
    simp only [eq_comm]
  cases op with
  | acquire b => exact hacquire b (hop b rfl)
  | acquireAt b offset => exact hacquire b (hop b rfl)
  | release d =>
    obtain ⟨hwf, hcount', -⟩ := ha.release d
    refine ⟨hwf, fun h => ?_⟩
    rw [exec, hcount', hcount, effect]
    by_cases hh : h = d
    · rw [if_pos hh, hh, Multiset.count_erase_self]
    · rw [if_neg hh, Multiset.count_erase_of_ne hh, Nat.sub_zero]

lemma arenaAfter_spec (ops : List ArenaOp) (hops : acquiredBlocks ops ⊆ S) :
    (arenaAfter ops).Wf S ∧ ∀ h, (arenaAfter ops).count h = (refsAfter ops).count h := by
  induction ops using List.reverseRecOn with
  | nil =>
    refine ⟨BlockArena.wf_new S, fun h => ?_⟩
    simp [arenaAfter, refsAfter, BlockArena.new, BlockArena.count]
  | append_singleton ops op ih =>
    have hmem : ∀ b, b ∈ acquiredBlocks ops ∨ op.acquired = some b → b ∈ S := by
      intro b hb
      refine hops ?_
      simp only [acquiredBlocks, Set.mem_ofPred_eq, List.filterMap_append, List.mem_append] at hb ⊢
      refine hb.imp_right fun hb => ?_
      simp [hb]
    obtain ⟨hwf, hcount⟩ := ih fun b hb => hmem b (Or.inl hb)
    have hstep := ArenaOp.step hwf hcount op fun b hb => hmem b (Or.inr hb)
    simpa [arenaAfter, refsAfter, List.foldl_append] using hstep

/-- After any operations on a new arena, it answers as the multiset of references says. -/
theorem arena_refines (ops : List ArenaOp) (hS : CollisionFree (acquiredBlocks ops)) :
    Refines (acquiredBlocks ops) (arenaAfter ops) (refsAfter ops) := by
  obtain ⟨hwf, hcount⟩ := arenaAfter_spec ops subset_rfl
  exact hwf.refines hS hcount

/-- One block, acquired twice and released once. -/
theorem arena_refines_shared :
    Refines (acquiredBlocks [.acquire [1], .acquireAt [1] 4, .release (hash [1])])
      (arenaAfter [.acquire [1], .acquireAt [1] 4, .release (hash [1])])
      (refsAfter [.acquire [1], .acquireAt [1] 4, .release (hash [1])]) := by
  refine arena_refines _ ?_
  intro b hb b' hb' _
  simp only [acquiredBlocks, List.filterMap_cons, ArenaOp.acquired, List.filterMap_nil,
    Set.mem_ofPred_eq, List.mem_cons, List.not_mem_nil, or_false, or_self] at hb hb'
  rw [hb, hb']

end TensorCache
