import TensorCache.Runtime.Calls

/-!
# What the placements ask for

The three stores of the runtime count references, and the placements of the entries are what
the references are for. `demand` adds up a weight over all placements of all entries; with the
right weight it is the number of references the placements ask of the arena, of the durable
blocks or of a device address. The lemmas say how it moves with one placement.
-/

namespace TensorCache

namespace Entry

variable {e : Entry} {p : Placement} {t : Tier}

lemma mem_placementTiers : t ∈ e.placementTiers ↔ ∃ p ∈ e.placements, p.tier = t := by
  simp [placementTiers]

lemma hasTier_iff : e.hasTier t = true ↔ t ∈ e.placementTiers := by
  simp [hasTier, mem_placementTiers]

lemma tier_of_tier? (h : e.tier? t = some p) : p ∈ e.placements ∧ p.tier = t := by
  refine ⟨List.mem_of_find?_eq_some h, ?_⟩
  simpa using List.find?_some h

lemma tier?_eq_none : e.tier? t = none ↔ t ∉ e.placementTiers := by
  simp [tier?, mem_placementTiers]

/-- With at most one placement in each tier, a placement is the one of its tier. -/
lemma tier?_of_mem (hnodup : e.placementTiers.Nodup) (hp : p ∈ e.placements) :
    e.tier? p.tier = some p := by
  obtain ⟨q, hq⟩ : ∃ q, e.tier? p.tier = some q := by
    rw [← Option.isSome_iff_exists, Option.isSome_iff_ne_none]
    exact fun hnone => tier?_eq_none.mp hnone (mem_placementTiers.mpr ⟨p, hp, rfl⟩)
  obtain ⟨hmem, htier⟩ := tier_of_tier? hq
  rw [hq, List.inj_on_of_nodup_map hnodup hmem hp htier]

@[simp] lemma placementTiers_push (p : Placement) (e : Entry) :
    (e.push p).placementTiers = e.placementTiers ++ [p.tier] := by
  simp [push, placementTiers]

@[simp] lemma placementTiers_without (t : Tier) (e : Entry) :
    (e.without t).placementTiers = e.placementTiers.erase t := by
  rw [List.erase_eq_eraseP, placementTiers, placementTiers, List.eraseP_map]
  simp only [without]
  congr 2
  funext p
  simp only [Function.comp_apply, Bool.beq_eq_decide_eq]
  exact decide_eq_decide.mpr eq_comm

lemma mem_of_mem_without (h : p ∈ (e.without t).placements) : p ∈ e.placements :=
  List.mem_of_mem_eraseP h

/-! ### Weights -/

/-- The weight of the placements of an entry. -/
def weight (w : List BlockRef → Placement → ℕ) (e : Entry) : ℕ :=
  (e.placements.map (w e.blocks)).sum

variable {w : List BlockRef → Placement → ℕ}

lemma weight_push (p : Placement) (e : Entry) : (e.push p).weight w = e.weight w + w e.blocks p := by
  simp [weight, push]

lemma weight_without (h : e.tier? t = some p) :
    (e.without t).weight w + w e.blocks p = e.weight w := by
  obtain ⟨hp, l₁, l₂, hl, hl₁⟩ := List.find?_eq_some_iff_append.mp h
  have herase : e.placements.eraseP (fun q => q.tier = t) = l₁ ++ l₂ := by
    rw [hl, List.eraseP_append_right _ (by simpa using hl₁)]
    congr 1
    exact List.eraseP_cons_of_pos hp
  simp only [weight, without, herase]
  rw [hl]
  simp only [List.map_append, List.map_cons, List.sum_append, List.sum_cons]
  omega

lemma le_weight (hp : p ∈ e.placements) : w e.blocks p ≤ e.weight w :=
  List.single_le_sum (fun _ _ => Nat.zero_le _) _ (List.mem_map_of_mem hp)

lemma weight_eq_zero (h : ∀ p ∈ e.placements, w e.blocks p = 0) : e.weight w = 0 := by
  refine List.sum_eq_zero fun n hn => ?_
  obtain ⟨p, hp, rfl⟩ := List.mem_map.mp hn
  exact h p hp

/-- Recording a use or marking an entry durable leaves what it holds alone. -/
def Touches (f : Entry → Entry) : Prop :=
  ∀ e, ∃ reuse lastUse durable,
    f e = { e with reuseCount := reuse, lastUseNs := lastUse, durable := durable }

lemma touches_recordUse (env : Env) : Touches (Runtime.recordUse env) :=
  fun e => ⟨_, _, e.durable, rfl⟩

lemma touches_durable : Touches fun e => { e with durable := true } :=
  fun e => ⟨e.reuseCount, e.lastUseNs, true, rfl⟩

end Entry

/-! ### Demand -/

/-- The weight of all placements. -/
def demand (w : List BlockRef → Placement → ℕ) (entries : HashMap Str Entry) : ℕ :=
  entries.total fun _ e => e.weight w

section Demand

variable {w : List BlockRef → Placement → ℕ} {entries : HashMap Str Entry} {k : Str} {e : Entry}

lemma demand_modify (w : List BlockRef → Placement → ℕ) (h : entries.lookup k = some e)
    (f : Entry → Entry) :
    demand w (entries.modify k f) + e.weight w = demand w entries + (f e).weight w :=
  AList.total_modify_add _ f h

lemma demand_push (h : entries.lookup k = some e) (p : Placement) :
    demand w (entries.modify k (Entry.push p)) = demand w entries + w e.blocks p := by
  have := demand_modify w h (Entry.push p)
  rw [Entry.weight_push] at this
  omega

lemma demand_without (h : entries.lookup k = some e) {t : Tier} {p : Placement}
    (hp : e.tier? t = some p) :
    demand w (entries.modify k (Entry.without t)) + w e.blocks p = demand w entries := by
  have := demand_modify w h (Entry.without t)
  have := Entry.weight_without (w := w) hp
  omega

lemma demand_touch {f : Entry → Entry} (hf : Entry.Touches f) :
    demand w (entries.modify k f) = demand w entries := by
  cases h : entries.lookup k with
  | none => rw [AList.modify_of_none h]
  | some e =>
    have := demand_modify w h f
    obtain ⟨reuse, lastUse, durable, he⟩ := hf e
    rw [he] at this
    change _ + e.weight w = _ + e.weight w at this
    omega

lemma demand_insert (h : entries.lookup k = none) (e : Entry) :
    demand w (entries.insert k e) = e.weight w + demand w entries :=
  AList.total_insert_of_none _ e h

lemma demand_erase (h : entries.lookup k = some e) :
    e.weight w + demand w (entries.erase k) = demand w entries :=
  AList.add_total_erase (fun _ e => e.weight w) h

lemma le_demand (h : entries.lookup k = some e) {p : Placement} (hp : p ∈ e.placements) :
    w e.blocks p ≤ demand w entries :=
  (Entry.le_weight hp).trans (AList.le_total (fun _ e => e.weight w) h)

end Demand

/-- The references a placement holds on a block of the arena. -/
def hostWeight (h : Digest) (_blocks : List BlockRef) : Placement → ℕ
  | .host refs => countRef h refs
  | _ => 0

/-- The references a placement holds on a durable block. -/
def durableWeight (h : Digest) (blocks : List BlockRef) : Placement → ℕ
  | .persistent => countRef h blocks
  | _ => 0

/-- Whether a placement owns the memory at an address of a device. -/
def deviceWeight (x : BackendId × UInt64) (_blocks : List BlockRef) : Placement → ℕ
  | .accelerator dev => if dev.address = some x then 1 else 0
  | _ => 0

end TensorCache
