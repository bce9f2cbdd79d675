import TensorCache.Coordinator.History

/-!
# Fence tokens

The coordinator hands out fences: the current one to the owner of an object, the next one to the
node the object migrates to. A request to migrate replaces the pending migration of the object, and
the fence that was handed out for it stays with the node it was meant for. A fence is handed out
to two nodes exactly when a migration to one of them is replaced by a migration to the other.
-/

namespace TensorCache

open EStateM

namespace Coordinator

/-- The step is a request to migrate an object, with a fence that is not stale, while a migration
of the object to another node is pending. -/
def Overrides (c : Coordinator) (op : Op) : Prop :=
  ∃ now id n addr fence o g p, op = .handle now (.migrate id n addr fence) ∧
    c.owners id = some (o, g) ∧ ¬fence < g ∧ c.migrations.lookup id = some p ∧ p.newOwner ≠ n

/-- The condition holds at every step of a run. -/
def Throughout (C : Coordinator → Op → Prop) (c₀ : Coordinator) : List Op → Prop
  | [] => True
  | op :: run => C (after c₀ run) op ∧ Throughout C c₀ run

section Tokens

variable {c : Coordinator} {op : Op} {id n o o' : Str} {f : UInt64} {count : ℕ}

/-- A request to migrate is accepted exactly when the object exists and the fence is not stale. -/
lemma accepts_iff {now : UInt64} {addr : Str} {fence : UInt64} :
    Accepts c id n f (.handle now (.migrate id n addr fence)) ↔
      ∃ o g, c.owners id = some (o, g) ∧ ¬fence < g ∧ f = g + 1 := by
  have hcases := c.handled now (.migrate id n addr fence)
  generalize hres : c.handle now (.migrate id n addr fence) = res at hcases
  constructor
  · rintro ⟨_, _, _, _, _, heq, hok⟩
    cases heq
    rw [hres] at hok
    subst hok
    cases hcases with
    | migrating _ _ _ _ state hsome hfence =>
      exact ⟨state.owner, state.fence, by simp [owners, hsome], hfence, rfl⟩
    | idle _ hidle => cases hidle
  · rintro ⟨o, g, howner, hfence, rfl⟩
    obtain ⟨state, hstate, heq⟩ := Option.map_eq_some_iff.mp howner
    cases heq
    cases hcases with
    | migrating _ _ _ _ state' hsome _ =>
      rw [hstate] at hsome
      cases hsome
      exact ⟨now, addr, fence, _, _, rfl, hres⟩
    | migrateRefused _ _ _ _ hrefused => exact absurd (hrefused state hstate) hfence
    | idle _ hidle => cases hidle

/-- Where a token stands: its fence is past, or it belongs to the owner, or to the node of the
pending migration. -/
def Placed (c : Coordinator) (id : Str) (f : UInt64) (o : Str) : Prop :=
  ∃ o₁ g, c.owners id = some (o₁, g) ∧
    (f.toNat < g.toNat ∨ (f = g ∧ o = o₁) ∨ c.migrations.lookup id = some ⟨o, f⟩)

lemma Placed.step (h : Placed c id f o) (hc : Consistent c count id) (hcount : count < 2 ^ 64)
    (hnot : ¬Overrides c op) : Placed (op.apply c) id f o := by
  obtain ⟨o₁, g, howner, hplace⟩ := h
  cases touch op c id with
  | kept hsame hpending =>
    refine ⟨o₁, g, hsame.trans howner, ?_⟩
    rw [hpending]
    exact hplace
  | created n hnone =>
    rw [hnone] at howner
    cases howner
  | accepted n o₂ g₂ hacc hmigrates howner₂ hsame hpending =>
    refine ⟨o₁, g, hsame.trans howner, ?_⟩
    rcases hplace with hpast | howned | hwaiting
    · exact .inl hpast
    · exact .inr (.inl howned)
    · -- the fence that is pending is issued again
      obtain ⟨o₃, g₃, howner₃, hfence, -⟩ := hc.pending _ hwaiting
      rw [howner₂] at howner₃
      cases howner₃
      have hn : o = n := by
        by_contra hne
        have hacc' := hacc
        obtain ⟨now, addr, fence, _, _, rfl, _⟩ := hacc'
        obtain ⟨o₄, g₄, howner₄, hfresh, -⟩ := accepts_iff.mp hacc
        exact hnot ⟨now, id, n, addr, fence, o₄, g₄, _, rfl, howner₄, hfresh, hwaiting, hne⟩
      rw [hpending, ← hn, show f = g₂ + 1 from hfence]
      exact .inr (.inr rfl)
  | committed n f₁ hcom hpending hnew hdone =>
    obtain ⟨o₂, g₂, howner₂, hfence, hle⟩ := hc.pending _ hpending
    rw [howner] at howner₂
    cases howner₂
    have hfence : f₁ = g + 1 := hfence
    have hg : f₁.toNat = g.toNat + 1 := by rw [hfence, toNat_succ hle hcount]
    refine ⟨n, f₁, by rw [hnew, howner]; rfl, ?_⟩
    rcases hplace with hpast | ⟨rfl, -⟩ | hwaiting
    · exact .inl (by omega)
    · exact .inl (by omega)
    · rw [hpending] at hwaiting
      cases hwaiting
      exact .inr (.inl ⟨rfl, rfl⟩)

end Tokens

/-! ### Runs -/

section Runs

variable {boot : BootId} {leaseNs : UInt64} {run : List Op} {id n o : Str} {f : UInt64}

end Runs

end Coordinator

end TensorCache
