import TensorCache.Accounting
import TensorCache.Storage.Arena

/-!
# The host tier

The block arena and the byte budget of the host tier, with the two things the runtime does to
them: taking in the blocks of a payload and giving up the references of a placement. The budget
is charged by a pre-pass over the block list, the arena counts what it really holds.
-/

namespace TensorCache

open Codec EStateM

/-- The host part of the runtime state. -/
structure HostTier where
  arena : BlockArena
  budget : Budget

namespace HostTier

/-- Run a budget operation. -/
def onBudget {α : Type} (m : EStateM Error Budget α) : EStateM Error HostTier α :=
  zoom HostTier.budget (fun b t => { t with budget := b }) m

/-- Acquire one reference for each block of the payload. -/
def acquireBlocks (payload : Bytes) (blocks : List BlockRef) :
    EStateM Error HostTier (List BlockRef) := fun t =>
  .ok (t.arena.acquireAll payload blocks).1 { t with arena := (t.arena.acquireAll payload blocks).2 }

/-- Reserve what the pre-pass counted, acquire the blocks and commit the reservation. -/
def takeIn (payload : Bytes) (blocks : List BlockRef) (newHost : ℕ) :
    EStateM Error HostTier (List BlockRef) := do
  onBudget (Budget.reserve newHost)
  let acquired ← acquireBlocks payload blocks
  onBudget (Budget.commitReserve newHost)
  pure acquired

/-- Release one reference, and the bytes of the block if it was the last one. -/
def releaseBlock (b : BlockRef) : EStateM Error HostTier PUnit := fun t =>
  let (freed, arena) := t.arena.release b.contentHash
  if freed then onBudget (Budget.subUsed b.len.toNat) { t with arena }
  else .ok ⟨⟩ { t with arena }

/-- The host branch of `remove_placement`. -/
def release (refs : List BlockRef) : EStateM Error HostTier PUnit := refs.forM releaseBlock

/-- The arena is consistent, and nothing is reserved between calls. -/
structure Wf (S : Set Bytes) (cap : ℕ) (t : HostTier) : Prop where
  arena : t.arena.Wf S
  budget : t.budget.Wf
  reserved : t.budget.reserved = 0
  capacity : t.budget.capacity = cap

variable {S : Set Bytes} {cap : ℕ} {t : HostTier}

/-- Taking in blocks succeeds once the pre-pass fits, and charges the pre-pass. -/
lemma takeIn_of_le (hb : t.budget.Wf) {n : ℕ} (hn : n ≤ t.budget.free) (p : Bytes)
    (blocks : List BlockRef) :
    HostTier.takeIn p blocks n t = .ok (t.arena.acquireAll p blocks).1
      ⟨(t.arena.acquireAll p blocks).2, { t.budget with used := t.budget.used + n }⟩ := by
  have hreserve := hb.reserve hn
  have hfits := hb.fits
  have hsmall := hb.small
  rw [hb.free_eq] at hn
  have hwf : Budget.Wf { t.budget with reserved := t.budget.reserved + n } :=
    ⟨hb.small, by simp only; omega⟩
  have hcommit := hwf.commitReserve (n := n) (by simp only; omega)
  simp only [Nat.add_sub_cancel] at hcommit
  have h₁ : onBudget (Budget.reserve n) t
      = .ok ⟨⟩ { t with budget := { t.budget with reserved := t.budget.reserved + n } } :=
    zoom_of_ok hreserve
  unfold HostTier.takeIn
  change EStateM.bind _ _ t = _
  simp only [EStateM.bind, h₁]
  change EStateM.bind _ _ _ = _
  simp only [EStateM.bind, acquireBlocks]
  change EStateM.bind _ _ _ = _
  simp only [EStateM.bind, onBudget, zoom, hcommit]
  rfl

/-- Taking in a payload always succeeds once the pre-pass fits, and charges the pre-pass. -/
lemma Wf.takeIn (h : t.Wf S cap) {p : Bytes} {ps : List Bytes} (ht : Tiles p ps)
    (hsmall : p.length < 2 ^ 64) {n : ℕ} (hn : n ≤ t.budget.free) :
    HostTier.takeIn p (refsFrom 0 ps) n t
      = .ok (refsFrom 0 ps)
        ⟨t.arena.takeAll ps, { t.budget with used := t.budget.used + n }⟩ := by
  rw [takeIn_of_le h.budget hn, BlockArena.acquireAll_tiles ht hsmall]

lemma Wf.admitted (h : t.Wf S cap) {ps : List Bytes} (hS : ∀ b ∈ ps, b ∈ S) {n : ℕ}
    (hn : n ≤ t.budget.free) :
    Wf S cap ⟨t.arena.takeAll ps, { t.budget with used := t.budget.used + n }⟩ := by
  have hfits := h.budget.fits
  rw [h.budget.free_eq] at hn
  exact ⟨h.arena.takeAll hS, ⟨h.budget.small, by simp only; omega⟩, h.reserved, h.capacity⟩

/-! ### Giving references up -/

lemma releaseBlock_kept {b : BlockRef} (h : (t.arena.release b.contentHash).1 = false) :
    releaseBlock b t = .ok ⟨⟩ { t with arena := (t.arena.release b.contentHash).2 } := by
  simp [releaseBlock, h]

lemma releaseBlock_freed {b : BlockRef} (h : (t.arena.release b.contentHash).1 = true) :
    releaseBlock b t = onBudget (Budget.subUsed b.len.toNat)
      { t with arena := (t.arena.release b.contentHash).2 } := by
  simp [releaseBlock, h]

lemma state_releaseBlock (b : BlockRef) (t : HostTier) :
    (releaseBlock b t).state.arena = (t.arena.release b.contentHash).2 := by
  cases hf : (t.arena.release b.contentHash).1 with
  | false => rw [releaseBlock_kept hf]; rfl
  | true => rw [releaseBlock_freed hf, onBudget, zoom_state]

lemma Wf.releaseBlock (h : t.Wf S cap) (b : BlockRef) :
    (HostTier.releaseBlock b t).state.Wf S cap := by
  have harena := (h.arena.release b.contentHash).1
  have hfits := h.budget.fits
  cases hf : (t.arena.release b.contentHash).1 with
  | false =>
    rw [releaseBlock_kept hf]
    exact ⟨harena, h.budget, h.reserved, h.capacity⟩
  | true =>
    rw [releaseBlock_freed hf, onBudget, zoom_state]
    simp only [Budget.subUsed]
    split_ifs with hlt
    · exact ⟨harena, h.budget, h.reserved, h.capacity⟩
    · exact ⟨harena, ⟨h.budget.small, by simp only [Result.state_ok]; omega⟩, h.reserved,
        h.capacity⟩

/-- Releasing a list of references takes away at most these references, also when the ledger
refuses half-way. -/
lemma release_covers (demand : Digest → ℕ) (refs : List BlockRef) :
    Triple (fun t : HostTier => t.Wf S cap ∧ ∀ h, demand h + countRef h refs ≤ t.arena.count h)
      (release refs) (fun _ t => t.Wf S cap ∧ ∀ h, demand h ≤ t.arena.count h)
      (fun t => t.Wf S cap ∧ ∀ h, demand h ≤ t.arena.count h) := by
  refine Triple.forM (I := fun rest (t : HostTier) => t.Wf S cap ∧
    ∀ h, demand h + countRef h rest ≤ t.arena.count h) (fun b rest t ht => ?_) refs
  obtain ⟨hwf, hcount⟩ := ht
  have hwf' := hwf.releaseBlock b
  have hcount' : ∀ h, demand h + countRef h rest
      ≤ (HostTier.releaseBlock b t).state.arena.count h := by
    intro h
    have := hcount h
    rw [countRef_cons] at this
    rw [state_releaseBlock, (hwf.arena.release b.contentHash).2.1 h]
    by_cases hh : h = b.contentHash
    · rw [if_pos hh]
      rw [if_pos hh.symm] at this
      omega
    · rw [if_neg hh]
      rw [if_neg (Ne.symm hh)] at this
      omega
  cases hrun : HostTier.releaseBlock b t with
  | ok u t' =>
    rw [hrun] at hwf' hcount'
    exact ⟨hwf', hcount'⟩
  | error e t' =>
    rw [hrun] at hwf' hcount'
    exact ⟨hwf', fun h => (Nat.le_add_right _ _).trans (hcount' h)⟩

/-- Releasing only ever takes bytes off the ledger. -/
lemma release_keeps_budget (refs : List BlockRef) :
    Keeps (fun t : HostTier => t.budget.Wf ∧ t.budget.reserved = 0) (release refs) := by
  refine Keeps.forM fun b _ => keeps_iff.mpr fun t ht => ?_
  cases hf : (t.arena.release b.contentHash).1 with
  | false =>
    rw [releaseBlock_kept hf]
    exact ht
  | true =>
    rw [releaseBlock_freed hf, onBudget, zoom_state]
    refine ⟨ht.1.subUsed_state _, ?_⟩
    simp only [Budget.subUsed]
    split_ifs
    · exact ht.2
    · exact ht.2

/-- The ledger covers what the arena holds. -/
def Covered (t : HostTier) : Prop := t.arena.bytes ≤ t.budget.used

/-- With a ledger that covers the arena, one release succeeds and moves both by the same
amount. -/
lemma releaseBlock_exact (hS : CollisionFree S) (h : t.Wf S cap) (hcov : t.Covered)
    {b : BlockRef} (hb : RefTo S b) :
    ∃ t', HostTier.releaseBlock b t = .ok ⟨⟩ t' ∧ t'.Wf S cap ∧ t'.Covered ∧
      t'.arena.bytes + t.budget.used = t.arena.bytes + t'.budget.used ∧
      ∀ d, t'.arena.count d = t.arena.count d - if d = b.contentHash then 1 else 0 := by
  have hwf' := h.releaseBlock b
  obtain ⟨-, hcount, hcases⟩ := h.arena.release b.contentHash
  unfold Covered at hcov ⊢
  rcases hcases with ⟨hf, hbytes⟩ | ⟨hf, -, c, hc, hhash, hbytes⟩
  · rw [releaseBlock_kept hf] at hwf' ⊢
    exact ⟨_, rfl, hwf', by simp only; omega, by simp only; omega, hcount⟩
  · -- the freed block is the one the reference was made from
    obtain ⟨block, hblock, offset, hsmall, rfl⟩ := hb
    have heq : c = block := hS hc hblock hhash
    subst heq
    have hlen : (blockRef c offset).len.toNat = c.length := toNat_ofNat hsmall
    have hsub : Budget.subUsed (blockRef c offset).len.toNat t.budget
        = .ok ⟨⟩ { t.budget with used := t.budget.used - c.length } := by
      rw [hlen]
      exact Budget.subUsed_of_le (by omega)
    have hrun : HostTier.releaseBlock (blockRef c offset) t = .ok ⟨⟩
        ⟨(t.arena.release (blockRef c offset).contentHash).2,
          { t.budget with used := t.budget.used - c.length }⟩ := by
      rw [releaseBlock_freed hf]
      exact zoom_of_ok hsub
    rw [hrun] at hwf' ⊢
    exact ⟨_, rfl, hwf', by simp only; omega, by simp only; omega, hcount⟩

/-- With a ledger that covers the arena, releasing succeeds: ledger and arena move by the same
amount, and exactly the given references are gone. -/
lemma release_exact (hS : CollisionFree S) {refs : List BlockRef} (hrefs : ∀ b ∈ refs, RefTo S b)
    (h : t.Wf S cap) (hcov : t.Covered) :
    ∃ t', release refs t = .ok ⟨⟩ t' ∧ t'.Wf S cap ∧ t'.Covered ∧
      t'.arena.bytes + t.budget.used = t.arena.bytes + t'.budget.used ∧
      ∀ d, t'.arena.count d = t.arena.count d - countRef d refs := by
  induction refs generalizing t with
  | nil => exact ⟨t, rfl, h, hcov, rfl, fun d => by simp⟩
  | cons b refs ih =>
    obtain ⟨t₁, hrun, hwf₁, hcov₁, hmove₁, hcount₁⟩ :=
      releaseBlock_exact hS h hcov (hrefs b (by simp))
    obtain ⟨t₂, hrun₂, hwf₂, hcov₂, hmove₂, hcount₂⟩ :=
      ih (fun c hc => hrefs c (by simp [hc])) hwf₁ hcov₁
    refine ⟨t₂, ?_, hwf₂, hcov₂, by omega, fun d => ?_⟩
    · change EStateM.bind _ _ t = _
      simp only [EStateM.bind, hrun]
      exact hrun₂
    · rw [hcount₂, hcount₁, countRef_cons]
      by_cases hd : d = b.contentHash
      · rw [if_pos hd, if_pos hd.symm]
        omega
      · rw [if_neg hd, if_neg (Ne.symm hd)]
        omega

end HostTier

end TensorCache
