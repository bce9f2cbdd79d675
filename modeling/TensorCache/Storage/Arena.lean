import Mathlib.Data.List.Dedup
import TensorCache.Storage.Properties

/-!
# The arena as a counted store

An arena keeps two maps and a byte total in step (`BlockArena.Wf`). Seen from outside it is a
count for each digest (`BlockArena.count`): acquiring adds one, releasing takes one away, and a
block is held as long as its count is positive.
-/

namespace TensorCache

open Codec

/-- The number of references to a digest in a block list. -/
def countRef (h : Digest) (refs : List BlockRef) : ℕ := refs.countP fun b => b.contentHash = h

@[simp] lemma countRef_nil (h : Digest) : countRef h [] = 0 := rfl

lemma countRef_cons (h : Digest) (b : BlockRef) (refs : List BlockRef) :
    countRef h (b :: refs) = countRef h refs + if b.contentHash = h then 1 else 0 := by
  simp [countRef, List.countP_cons]

lemma countRef_pos {h : Digest} {refs : List BlockRef} :
    0 < countRef h refs ↔ ∃ b ∈ refs, b.contentHash = h := by
  simp [countRef, List.countP_pos_iff]

/-- The blocks of a list that a tier does not hold yet are pairwise distinct. -/
def FreshDistinct (held : Digest → Bool) (refs : List BlockRef) : Prop :=
  ((refs.map fun b => b.contentHash).filter fun h => !held h).Nodup

instance (held : Digest → Bool) (refs : List BlockRef) : Decidable (FreshDistinct held refs) :=
  inferInstanceAs (Decidable (List.Nodup _))

lemma FreshDistinct.mono {held held' : Digest → Bool} {refs : List BlockRef}
    (h : ∀ d, held d = true → held' d = true) (hf : FreshDistinct held refs) :
    FreshDistinct held' refs := by
  refine hf.sublist (List.monotone_filter_right _ ?_)
  intro d hd
  cases hh : held d with
  | false => rfl
  | true => simp [h d hh] at hd

lemma FreshDistinct.congr {held held' : Digest → Bool} {refs : List BlockRef}
    (h : ∀ b ∈ refs, held b.contentHash = held' b.contentHash) (hf : FreshDistinct held refs) :
    FreshDistinct held' refs := by
  have hfilter : (refs.map fun b => b.contentHash).filter (fun x => !held' x)
      = (refs.map fun b => b.contentHash).filter (fun x => !held x) := by
    refine List.filter_congr fun x hx => ?_
    obtain ⟨b, hb, rfl⟩ := List.mem_map.mp hx
    rw [h b hb]
  rw [FreshDistinct, hfilter]
  exact hf

/-- A reference that was made from a block of `S`. -/
def RefTo (S : Set Bytes) (b : BlockRef) : Prop :=
  ∃ block ∈ S, ∃ offset, block.length < 2 ^ 64 ∧ b = blockRef block offset

lemma refTo_refsFrom {S : Set Bytes} {ps : List Bytes} (hS : ∀ b ∈ ps, b ∈ S)
    (hsmall : ps.flatten.length < 2 ^ 64) (offset : ℕ) :
    ∀ b ∈ refsFrom offset ps, RefTo S b := by
  induction ps generalizing offset with
  | nil => simp [refsFrom]
  | cons c ps ih =>
    simp only [List.flatten_cons, List.length_append] at hsmall
    intro b hb
    rcases List.mem_cons.mp hb with rfl | hb
    · exact ⟨c, hS c (by simp), offset, by omega, rfl⟩
    · exact ih (fun d hd => hS d (by simp [hd])) (by omega) _ b hb

lemma newBytes_mono {held held' : Digest → Bool} {refs : List BlockRef}
    (h : ∀ b ∈ refs, held b.contentHash = true → held' b.contentHash = true) :
    newBytes held' refs ≤ newBytes held refs := by
  induction refs with
  | nil => exact le_rfl
  | cons b refs ih =>
    have := ih fun c hc => h c (by simp [hc])
    simp only [newBytes]
    by_cases hb : held b.contentHash = true
    · rw [if_pos hb, if_pos (h b (by simp) hb)]
      omega
    · rw [if_neg hb]
      split_ifs <;> omega

lemma newBytes_le (held : Digest → Bool) (ps : List Bytes) (offset : ℕ) :
    newBytes held (refsFrom offset ps) ≤ ps.flatten.length := by
  induction ps generalizing offset with
  | nil => exact Nat.zero_le _
  | cons b ps ih =>
    have := ih (offset + b.length)
    have hlen : (UInt64.ofNat b.length).toNat ≤ b.length := by
      rw [UInt64.toNat_ofNat']
      exact Nat.mod_le _ _
    simp only [refsFrom, newBytes, blockRef, List.flatten_cons, List.length_append]
    split_ifs <;> omega

lemma newBytes_congr {held held' : Digest → Bool} {refs : List BlockRef}
    (h : ∀ b ∈ refs, held b.contentHash = held' b.contentHash) :
    newBytes held refs = newBytes held' refs := by
  induction refs with
  | nil => rfl
  | cons b refs ih =>
    simp only [newBytes, h b (by simp), ih fun c hc => h c (by simp [hc])]

/-- What is held once the block `h` is held too. -/
def alsoHeld (held : Digest → Bool) (h : Digest) : Digest → Bool := fun d =>
  held d || decide (h = d)

/-- Taking the first block in and going on counts at most what the pre-pass counts. -/
lemma newBytes_alsoHeld_le (held : Digest → Bool) (b : BlockRef) (refs : List BlockRef) :
    (if held b.contentHash then 0 else b.len.toNat)
      + newBytes (alsoHeld held b.contentHash) refs ≤ newBytes held (b :: refs) := by
  have : newBytes (alsoHeld held b.contentHash) refs ≤ newBytes held refs :=
    newBytes_mono fun c _ hc => by simp [alsoHeld, hc]
  simp only [newBytes]
  omega

/-- The pre-pass is exact when no new block occurs twice. -/
lemma newBytes_alsoHeld_eq {held : Digest → Bool} {b : BlockRef} {refs : List BlockRef}
    (hfresh : FreshDistinct held (b :: refs)) :
    FreshDistinct (alsoHeld held b.contentHash) refs ∧
      (if held b.contentHash then 0 else b.len.toNat)
        + newBytes (alsoHeld held b.contentHash) refs = newBytes held (b :: refs) := by
  rw [FreshDistinct, List.map_cons, List.filter_cons] at hfresh
  have hmono : ∀ d, held d = true → alsoHeld held b.contentHash d = true := fun d hd => by
    simp [alsoHeld, hd]
  cases hb : held b.contentHash with
  | true =>
    -- an old block: the same blocks are held as before
    have hsame : alsoHeld held b.contentHash = held := by
      funext d
      by_cases hd : b.contentHash = d
      · simp [alsoHeld, ← hd, hb]
      · simp [alsoHeld, hd]
    rw [hb] at hfresh
    rw [hsame]
    exact ⟨hfresh, by simp only [newBytes, hb]⟩
  | false =>
    -- a new block: none of the other new blocks is equal to it
    rw [hb] at hfresh
    obtain ⟨hnot, hnodup⟩ := List.nodup_cons.mp hfresh
    refine ⟨FreshDistinct.mono hmono hnodup, ?_⟩
    have hcongr : newBytes (alsoHeld held b.contentHash) refs = newBytes held refs := by
      refine newBytes_congr fun r hr => ?_
      by_cases hd : b.contentHash = r.contentHash
      · cases hc : held r.contentHash with
        | true => simp [alsoHeld, hc]
        | false =>
          refine absurd ?_ hnot
          rw [hd, List.mem_filter]
          exact ⟨List.mem_map_of_mem hr, by rw [hc]; rfl⟩
      · simp [alsoHeld, hd]
    rw [hcongr]
    simp only [newBytes, hb]

namespace BlockArena

/-- The number of references held to a block. -/
def count (a : BlockArena) (h : Digest) : ℕ := (a.refs.lookup h).getD 0

/-- The two maps have the same keys, counts are positive, blocks are stored under their own hash
and the byte total is the total over the blocks. -/
structure Wf (S : Set Bytes) (a : BlockArena) : Prop where
  keys : ∀ h, (a.refs.lookup h).isSome = (a.blocks.lookup h).isSome
  pos : ∀ h n, a.refs.lookup h = some n → 0 < n
  content : ∀ h b, a.blocks.lookup h = some b → hash b = h ∧ b ∈ S
  total : a.bytes = a.blocks.total fun _ b => b.length

variable {S : Set Bytes} {a : BlockArena}

lemma wf_new (S : Set Bytes) : Wf S new where
  keys _ := rfl
  pos _ _ h := by simp [new] at h
  content _ _ h := by simp [new] at h
  total := rfl

lemma Wf.contains_iff (ha : a.Wf S) (h : Digest) : a.contains h = true ↔ 0 < a.count h := by
  rw [contains, ← ha.keys h, count]
  cases hr : a.refs.lookup h with
  | none => simp
  | some n => simpa using ha.pos h n hr

/-- A block that is counted can be read, and what is read is the block. -/
lemma Wf.get (ha : a.Wf S) (hS : CollisionFree S) {b : Bytes} (hb : b ∈ S)
    (hc : 0 < a.count (hash b)) : a.get (hash b) = .ok b := by
  have hsome := (ha.contains_iff (hash b)).mpr hc
  obtain ⟨c, hlook⟩ := Option.isSome_iff_exists.mp hsome
  obtain ⟨hhash, hc⟩ := ha.content _ _ hlook
  rw [BlockArena.get, hlook, hS hc hb hhash]

/-- Whatever the arena returns for the hash of a block of `S` is that block. -/
lemma Wf.eq_of_get (ha : a.Wf S) (hS : CollisionFree S) {b d : Bytes} (hb : b ∈ S)
    (h : a.get (hash b) = .ok d) : d = b := by
  rw [BlockArena.get] at h
  cases hlook : a.blocks.lookup (hash b) with
  | none => rw [hlook] at h; cases h
  | some c =>
    rw [hlook] at h
    cases h
    obtain ⟨hhash, hc⟩ := ha.content _ _ hlook
    exact hS hc hb hhash

/-! ### Acquiring -/

lemma acquire_of_some {b c : Bytes} (h : a.blocks.lookup (hash b) = some c) :
    (a.acquire b).2 = { a with refs := a.refs.modify (hash b) (· + 1) } := by
  simp [acquire, h]

lemma acquire_of_none {b : Bytes} (h : a.blocks.lookup (hash b) = none) :
    (a.acquire b).2 = ⟨a.blocks.insert (hash b) b, a.refs.insert (hash b) 1,
      a.bytes + b.length⟩ := by
  simp [acquire, h]

lemma Wf.acquire (ha : a.Wf S) {b : Bytes} (hb : b ∈ S) : (a.acquire b).2.Wf S := by
  cases hlook : a.blocks.lookup (hash b) with
  | some c =>
    rw [acquire_of_some hlook]
    refine ⟨fun h => ?_, fun h n hn => ?_, ha.content, ha.total⟩
    · rw [← ha.keys h]
      by_cases hh : h = hash b
      · rw [hh, AList.lookup_modify_self, Option.isSome_map]
      · rw [AList.lookup_modify_ne hh]
    · by_cases hh : h = hash b
      · rw [hh, AList.lookup_modify_self] at hn
        obtain ⟨m, -, rfl⟩ := Option.map_eq_some_iff.mp hn
        omega
      · rw [AList.lookup_modify_ne hh] at hn
        exact ha.pos h n hn
  | none =>
    rw [acquire_of_none hlook]
    refine ⟨fun h => ?_, fun h n hn => ?_, fun h c hc => ?_, ?_⟩
    · simp only [AList.lookup_insert_eq_ite]
      split_ifs
      · rfl
      · exact ha.keys h
    · simp only [AList.lookup_insert_eq_ite] at hn
      split_ifs at hn
      · cases hn
        omega
      · exact ha.pos h n hn
    · simp only [AList.lookup_insert_eq_ite] at hc
      split_ifs at hc with hh
      · cases hc
        exact ⟨hh.symm, hb⟩
      · exact ha.content h c hc
    · rw [AList.total_insert_of_none _ _ hlook, ← ha.total]
      simp only []
      omega

lemma Wf.count_acquire (ha : a.Wf S) (b : Bytes) (h : Digest) :
    (a.acquire b).2.count h = a.count h + if hash b = h then 1 else 0 := by
  cases hlook : a.blocks.lookup (hash b) with
  | some c =>
    have hsome : (a.refs.lookup (hash b)).isSome := by rw [ha.keys, hlook]; rfl
    obtain ⟨n, hn⟩ := Option.isSome_iff_exists.mp hsome
    rw [acquire_of_some hlook]
    by_cases hh : h = hash b
    · subst hh
      simp [count, AList.lookup_modify_self, hn]
    · simp [count, AList.lookup_modify_ne hh, Ne.symm hh]
  | none =>
    have hnone : a.refs.lookup (hash b) = none := by
      have := ha.keys (hash b)
      rw [hlook] at this
      simpa using this
    rw [acquire_of_none hlook]
    by_cases hh : h = hash b
    · subst hh
      simp [count, hnone]
    · simp [count, AList.lookup_insert_ne hh, Ne.symm hh]

/-- Acquire pieces one after the other. -/
def takeAll (a : BlockArena) (ps : List Bytes) : BlockArena :=
  ps.foldl (fun a b => (a.acquire b).2) a

lemma acquireAll_refsFrom (done : Bytes) {ps : List Bytes} (a : BlockArena)
    (hsmall : done.length + ps.flatten.length < 2 ^ 64) :
    a.acquireAll (done ++ ps.flatten) (refsFrom done.length ps)
      = (refsFrom done.length ps, a.takeAll ps) := by
  induction ps generalizing done a with
  | nil => rfl
  | cons b ps ih =>
    simp only [List.flatten_cons, List.length_append] at hsmall
    have hslice : slice (done ++ (b ++ ps.flatten)) (UInt64.ofNat done.length).toNat
        (UInt64.ofNat b.length).toNat = b := by
      rw [toNat_ofNat (by omega), toNat_ofNat (by omega), slice_pieces]
    have hrest := ih (done ++ b) (a.acquire b).2
      (by simp only [List.length_append]; omega)
    rw [List.append_assoc, List.length_append] at hrest
    simp only [refsFrom, acquireAll, List.flatten_cons, blockRef, hslice, acquireAt, hrest]
    rfl

/-- The acquisition loop on the block list of a payload: every piece is acquired, and the
references that come back are the block list itself. -/
lemma acquireAll_tiles {p : Bytes} {ps : List Bytes} (ht : Tiles p ps)
    (hsmall : p.length < 2 ^ 64) (a : BlockArena) :
    a.acquireAll p (refsFrom 0 ps) = (refsFrom 0 ps, a.takeAll ps) := by
  have h := acquireAll_refsFrom [] a (by rw [ht.flatten]; simpa using hsmall)
  rw [List.nil_append, ht.flatten] at h
  exact h

lemma Wf.takeAll (ha : a.Wf S) {ps : List Bytes} (hS : ∀ b ∈ ps, b ∈ S) :
    (a.takeAll ps).Wf S := by
  induction ps generalizing a with
  | nil => exact ha
  | cons b ps ih =>
    exact ih (ha.acquire (hS b (by simp))) fun c hc => hS c (by simp [hc])

lemma Wf.count_takeAll (ha : a.Wf S) {ps : List Bytes} (hS : ∀ b ∈ ps, b ∈ S) (offset : ℕ)
    (h : Digest) : (a.takeAll ps).count h = a.count h + countRef h (refsFrom offset ps) := by
  induction ps generalizing a offset with
  | nil => rfl
  | cons b ps ih =>
    change ((a.acquire b).2.takeAll ps).count h = _
    rw [ih (ha.acquire (hS b (by simp))) (fun c hc => hS c (by simp [hc])) (offset + b.length),
      ha.count_acquire, refsFrom, countRef_cons]
    change _ + (if hash b = h then 1 else 0) + _ = _ + (_ + if hash b = h then 1 else 0)
    omega

/-! ### The pre-pass and the arena -/

lemma release_of_none {h : Digest} (hr : a.refs.lookup h = none) : a.release h = (false, a) := by
  simp [release, hr]

lemma release_of_last {h : Digest} {b : Bytes} (hr : a.refs.lookup h = some 1)
    (hb : a.blocks.lookup h = some b) :
    a.release h = (true, ⟨a.blocks.erase h, a.refs.erase h, a.bytes - b.length⟩) := by
  simp [release, hr, hb]

lemma release_of_shared {h : Digest} {n : ℕ} (hr : a.refs.lookup h = some (n + 2)) :
    a.release h = (false, { a with refs := a.refs.insert h (n + 1) }) := by
  simp [release, hr]

lemma Wf.block_of_refs (ha : a.Wf S) {h : Digest} {n : ℕ} (hr : a.refs.lookup h = some n) :
    ∃ b, a.blocks.lookup h = some b := by
  have := ha.keys h
  rw [hr] at this
  exact Option.isSome_iff_exists.mp this.symm

/-- What releasing one reference does: nothing to an absent block, and otherwise one reference
less, with the block freed exactly when it was the last one. -/
lemma Wf.release (ha : a.Wf S) (h : Digest) :
    (a.release h).2.Wf S ∧
    (∀ d, (a.release h).2.count d = a.count d - if d = h then 1 else 0) ∧
    (((a.release h).1 = false ∧ (a.release h).2.bytes = a.bytes) ∨
      ((a.release h).1 = true ∧ a.count h = 1 ∧
        ∃ b ∈ S, hash b = h ∧ (a.release h).2.bytes + b.length = a.bytes)) := by
  cases hr : a.refs.lookup h with
  | none =>
    rw [release_of_none hr]
    refine ⟨ha, fun d => ?_, Or.inl ⟨rfl, rfl⟩⟩
    split_ifs with hd
    · rw [hd]
      simp [count, hr]
    · rfl
  | some n =>
    obtain ⟨b, hb⟩ := ha.block_of_refs hr
    match n, hr with
    | 0, hr => exact absurd (ha.pos h 0 hr) (by omega)
    | 1, hr =>
      have htotal := AList.add_total_erase (fun _ b => b.length) hb
      rw [← ha.total] at htotal
      rw [release_of_last hr hb]
      refine ⟨⟨fun d => ?_, fun d m hm => ?_, fun d c hc => ?_, ?_⟩, fun d => ?_,
        Or.inr ⟨rfl, by simp [count, hr], b, (ha.content h b hb).2, (ha.content h b hb).1, ?_⟩⟩
      · simp only [AList.lookup_erase_eq_ite]
        split_ifs
        · rfl
        · exact ha.keys d
      · simp only [AList.lookup_erase_eq_ite] at hm
        split_ifs at hm
        exact ha.pos d m hm
      · simp only [AList.lookup_erase_eq_ite] at hc
        split_ifs at hc
        exact ha.content d c hc
      · simp only []
        omega
      · simp only [count, AList.lookup_erase_eq_ite]
        split_ifs with hd
        · rw [hd, hr]
          rfl
        · rfl
      · simp only []
        omega
    | n + 2, hr =>
      rw [release_of_shared hr]
      refine ⟨⟨fun d => ?_, fun d m hm => ?_, ha.content, ha.total⟩, fun d => ?_,
        Or.inl ⟨rfl, rfl⟩⟩
      · simp only [AList.lookup_insert_eq_ite]
        split_ifs with hd
        · rw [hd, hb]
          rfl
        · exact ha.keys d
      · simp only [AList.lookup_insert_eq_ite] at hm
        split_ifs at hm
        · cases hm
          omega
        · exact ha.pos d m hm
      · simp only [count, AList.lookup_insert_eq_ite]
        split_ifs with hd
        · rw [hd, hr]
          rfl
        · rfl

/-! ### The byte total -/

end BlockArena

end TensorCache
