import TensorCache.Runtime.Reachable
import TensorCache.Runtime.Sessions

/-!
# Movement keeps the data

Looking an object up, moving it between tiers or checking it touches one entry, and takes at most
the source of a demotion away from it. This rests on the ledger of the host tier, which no call
brings over its capacity: the capacity enforcement that follows a movement has nothing to evict.
-/

namespace TensorCache

open Codec EStateM TensorCache.Runtime

/-- The object that a call reads or moves. -/
def Runtime.Call.moves : Call → Option ObjectId
  | .lookup address _ => some address.objectId
  | .restore oid _ => some oid
  | .promote oid _ => some oid
  | .replicate oid _ => some oid
  | .demote oid _ => some oid
  | .persist oid => some oid
  | .verify oid => some oid
  | .register _ => none
  | .evict _ => none
  | .delete _ => none

/-- The tiers whose placement a movement may give up. -/
def Runtime.Call.leaves : Call → List Tier
  | .demote _ source => [source]
  | _ => []

/-- From `e` to `e'` an entry loses placements in the given tiers at most, and not all. -/
structure KeepsPlacements (tiers : List Tier) (e e' : Entry) : Prop where
  kept : (e.placements.filter fun p => p.tier ∉ tiers).Sublist e'.placements
  nonempty : e.placements ≠ [] → e'.placements ≠ []

/-- From `s` to `s'` only one object has been moved, and it has kept its placements. -/
structure MovedOnly (oid : ObjectId) (tiers : List Tier) (s s' : Runtime) : Prop where
  others : ∀ k, k ≠ oid.toHex →
    (s'.entries.lookup k).map Entry.placements = (s.entries.lookup k).map Entry.placements
  object : ∀ e, s.entries.lookup oid.toHex = some e →
    ∃ e', s'.entries.lookup oid.toHex = some e' ∧ KeepsPlacements tiers e e'
  absent : s.entries.lookup oid.toHex = none → s'.entries.lookup oid.toHex = none

section Entries

variable {e e' e'' : Entry} {tiers : List Tier} {t lower : Tier}

lemma KeepsPlacements.rfl : KeepsPlacements tiers e e :=
  ⟨List.filter_sublist, fun h => h⟩

lemma KeepsPlacements.push (h : KeepsPlacements tiers e e') (p : Placement) :
    KeepsPlacements tiers e (e'.push p) :=
  ⟨h.kept.trans (List.sublist_append_left _ _), fun _ => by simp [Entry.push]⟩

/-- Taking the source of a demotion off an entry that has a copy in another tier. -/
lemma KeepsPlacements.without (h : KeepsPlacements [t] e e') (hlower : e'.hasTier lower = true)
    (hne : lower ≠ t) : KeepsPlacements [t] e (e'.without t) := by
  refine ⟨?_, fun _ hempty => ?_⟩
  · have hnone : ∀ p ∈ e.placements.filter fun p => p.tier ∉ [t], ¬decide (p.tier = t) = true := by
      intro p hp
      simpa using (List.mem_filter.mp hp).2
    have hsub := h.kept.eraseP (p := fun p => decide (p.tier = t))
    rw [List.eraseP_of_forall_not hnone] at hsub
    exact hsub
  · rw [Entry.hasTier_iff] at hlower
    have hstays : lower ∈ (e'.without t).placementTiers := by
      rw [Entry.placementTiers_without]
      exact (List.mem_erase_of_ne hne).mpr hlower
    rw [Entry.placementTiers, hempty] at hstays
    cases hstays

end Entries

section States

variable {env : Env} {s s₀ s' : Runtime} {oid : ObjectId} {tiers : List Tier} {c : Call}

lemma MovedOnly.rfl : MovedOnly oid tiers s s :=
  ⟨fun _ _ => Eq.refl _, fun e he => ⟨e, he, KeepsPlacements.rfl⟩, fun h => h⟩

lemma placements_touch {f : Entry → Entry} (hf : Entry.Touches f) (e : Entry) :
    (f e).placements = e.placements := by
  obtain ⟨reuse, lastUse, durable, he⟩ := hf e
  rw [he]

/-- Touching an entry, of this object or of another, moves nothing. -/
lemma MovedOnly.touch (h : MovedOnly oid tiers s₀ s) {f : Entry → Entry} (hf : Entry.Touches f)
    (o : ObjectId) : MovedOnly oid tiers s₀ (updateEntry o f s) := by
  have hlook : ∀ k, ((updateEntry o f s).entries.lookup k).map Entry.placements
      = (s.entries.lookup k).map Entry.placements := by
    intro k
    by_cases hk : k = o.toHex
    · rw [hk, updateEntry, AList.lookup_modify_self, Option.map_map]
      congr 1
      funext e
      exact placements_touch hf e
    · rw [updateEntry, AList.lookup_modify_ne hk]
  refine ⟨fun k hk => (hlook k).trans (h.others k hk), fun e he => ?_, fun hnone => ?_⟩
  · obtain ⟨e', he', hkeeps⟩ := h.object e he
    have hsome := hlook oid.toHex
    rw [he'] at hsome
    obtain ⟨e'', he'', hplaced⟩ := Option.map_eq_some_iff.mp hsome
    exact ⟨e'', he'', by rw [hplaced]; exact hkeeps.kept, by rw [hplaced]; exact hkeeps.nonempty⟩
  · have hgone := hlook oid.toHex
    rw [h.absent hnone] at hgone
    simpa using hgone

/-- The entry of the object changes once more. -/
lemma MovedOnly.modify (h : MovedOnly oid tiers s₀ s) {f : Entry → Entry}
    (hentries : s'.entries = s.entries.modify oid.toHex f)
    (hf : ∀ e e', s.entries.lookup oid.toHex = some e' → KeepsPlacements tiers e e' →
      KeepsPlacements tiers e (f e')) : MovedOnly oid tiers s₀ s' := by
  refine ⟨fun k hk => ?_, fun e he => ?_, fun hnone => ?_⟩
  · rw [hentries, AList.lookup_modify_ne hk, h.others k hk]
  · obtain ⟨e', he', hkeeps⟩ := h.object e he
    refine ⟨f e', ?_, hf e e' he' hkeeps⟩
    rw [hentries, AList.lookup_modify_self, he']
    rfl
  · rw [hentries, AList.lookup_modify_self, h.absent hnone]
    rfl

lemma MovedOnly.of_entries (h : MovedOnly oid tiers s₀ s) (hentries : s'.entries = s.entries) :
    MovedOnly oid tiers s₀ s' := by
  refine ⟨fun k hk => ?_, fun e he => ?_, fun hnone => ?_⟩
  · rw [hentries, h.others k hk]
  · rw [hentries]
    exact h.object e he
  · rw [hentries, h.absent hnone]

lemma adds_of_moves {oid' : ObjectId} {t : Tier} (hmoves : c.moves = some oid)
    (hadds : c.adds = some (oid', t)) : oid' = oid := by
  cases c with
  | restore o t' => cases hmoves; cases hadds; rfl
  | promote o t' => cases hmoves; cases hadds; rfl
  | replicate o t' => cases hmoves; cases hadds; rfl
  | demote o source =>
    cases hmoves
    obtain ⟨lower, -, hpair⟩ := Option.map_eq_some_iff.mp hadds
    cases hpair
    rfl
  | persist o => cases hmoves; cases hadds; rfl
  | _ => cases hadds

/-- The moves of a call on one object. -/
lemma movedOnly_moves (hmoves : c.moves = some oid) :
    Moves env c s₀ (MovedOnly oid c.leaves s₀) where
  start := MovedOnly.rfl
  touch s o f hf hs := hs.touch hf o
  add o t bytes hadds _ := by
    cases adds_of_moves hmoves hadds
    have hadd := addPlacement_entries env oid t bytes s₀ s₀ rfl
    cases hrun : addPlacement env oid t bytes s₀ with
    | ok u s' =>
      rw [hrun] at hadd
      obtain ⟨e, p, -, -, hentries⟩ := hadd
      exact MovedOnly.rfl.modify hentries fun _ _ _ hkeeps => hkeeps.push p
    | error err s' =>
      rw [hrun] at hadd
      exact MovedOnly.rfl.of_entries hadd
  remove s o t hrem hs := by
    cases c with
    | demote o' source =>
      cases hmoves
      obtain ⟨rfl, rfl, lower, hlower, hres⟩ := hrem
      rcases removePlacement_entries env o t s with hentries | ⟨err, herr⟩
      · refine hs.modify hentries fun e e' he' hkeeps => ?_
        obtain ⟨e'', he'', hhas⟩ := entryHasTier_eq_ok.mp hres
        rw [he'] at he''
        cases he''
        exact hkeeps.without hhas (nextLower_ne hlower)
      · rw [herr]
        exact hs
    | register r => cases hmoves
    | evict o' => cases hmoves
    | delete o' => cases hmoves
    | _ => cases hrem
  enter r _ _ _ _ _ _ hc := by
    subst hc
    cases hmoves
  forget s o e hc := by
    subst hc
    cases hmoves
  clean d s hs := hs.of_entries rfl

end States

/-- In every reachable state a movement leaves the placements of the other entries alone, and its
object keeps every placement except the source of a demotion, and at least one. Nothing is evicted
to enforce the capacity of the host tier. -/
theorem movement_keeps {s : Runtime} (h : Reachable s) (ev : Event) {oid : ObjectId}
    (hmoves : ev.call.moves = some oid) :
    s.accounting.used .host ≤ s.accounting.capacity .host ∧
      (∀ env, enforceCapacity env s = .ok ⟨⟩ s) ∧
      (∀ k, k ≠ oid.toHex → ((s.exec ev).entries.lookup k).map Entry.placements
        = (s.entries.lookup k).map Entry.placements) ∧
      ∀ e, s.entries.lookup oid.toHex = some e →
        ∃ e', (s.exec ev).entries.lookup oid.toHex = some e' ∧
          (e.placements.filter fun p => p.tier ∉ ev.call.leaves).Sublist e'.placements ∧
          (e.placements ≠ [] → e'.placements ≠ []) := by
  have hmoved := (h.ledger.exec (movedOnly_moves hmoves)).2
  refine ⟨h.ledger.fits, fun env => enforceCapacity_of_le h.ledger.fits, hmoved.others,
    fun e he => ?_⟩
  obtain ⟨e', he', hkeeps⟩ := hmoved.object e he
  exact ⟨e', he', hkeeps.kept, hkeeps.nonempty⟩

/-- A registered pair of bytes is brought to the host tier, where it is already. -/
theorem movement_keeps_bytePair :
    ∃ e e', ((initial smallConfig [] none).exec ⟨{}, .register (bytePair 0 1 2)⟩).entries.lookup
        (bytePair 0 1 2).address.objectId.toHex = some e ∧
      (((initial smallConfig [] none).exec ⟨{}, .register (bytePair 0 1 2)⟩).exec
          ⟨{}, .restore (bytePair 0 1 2).address.objectId .host⟩).entries.lookup
            (bytePair 0 1 2).address.objectId.toHex = some e' ∧
        e'.placements ≠ [] := by
  have hopen : Runtime.new {} smallConfig [] ∅ 0 = .ok (initial smallConfig [] none) := rfl
  have hnew : Reachable (initial smallConfig [] none) := .new hopen
  have hplaced : (((initial smallConfig [] none).exec
      ⟨{}, .register (bytePair 0 1 2)⟩).entries.lookup (bytePair 0 1 2).address.objectId.toHex).any
        (fun e => !e.placements.isEmpty) = true := by
    decide +kernel
  obtain ⟨e, he, hne⟩ := (Option.any_eq_true _ _).mp hplaced
  obtain ⟨-, -, -, hobject⟩ := movement_keeps (hnew.exec ⟨{}, .register (bytePair 0 1 2)⟩)
    ⟨{}, .restore (bytePair 0 1 2).address.objectId .host⟩ rfl
  obtain ⟨e', he', -, hnonempty⟩ := hobject e he
  exact ⟨e, e', he, he', hnonempty (by simpa using hne)⟩

end TensorCache
