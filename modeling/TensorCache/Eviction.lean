import TensorCache.EvictionOrder
import TensorCache.Runtime.Reachable
import TensorCache.Runtime.Sessions

/-!
# Making room in the host tier

`evict_to_free` strips entries of their placements while the host tier has not enough free bytes.
How much a removal frees depends on the blocks that entries share, and an error of a removal is
swallowed; but every removal takes its placement off the entry. Which entries are stripped, and
what is left of them, therefore depends on the free bytes only through the number of turns.
-/

namespace TensorCache

open Codec EStateM TensorCache.Runtime

/-- What eviction leaves of an entry. -/
def Entry.stripped (e : Entry) : Entry :=
  { e with placements := e.placements.filter fun p => p.tier = .persistent }

/-- The candidates of `evict_to_free`, in eviction order. -/
def Runtime.victims (env : Env) (s : Runtime) : List Evictable :=
  evictionOrder s.config.eviction (s.evictables fun key => env.now (.candidate key))

/-- An entry as a candidate, with its age at the reading of the clock for it. -/
def Runtime.candidate (env : Env) (s : Runtime) (key : Str) (e : Entry) : Evictable where
  objectId := key
  bytes := e.byteLen.toNat
  reuseCount := e.reuseCount
  ageSeconds := ((env.now (.candidate key)).toNat - e.lastUseNs.toNat) / 1000000000
  reconstructionCostNs := s.config.cost.reconstructCostNs e.byteLen.toNat
  priority := 0
  durable := e.durable

/-- The state after the given candidates have been stripped, one after the other. -/
def Runtime.stripAll (env : Env) (order : List Evictable) (s : Runtime) : Runtime :=
  order.foldl (fun s c => (strip env c.objectId s).state) s

variable {env : Env} {s s' : Runtime} {oid : ObjectId} {k key : Str} {e : Entry}
  {order : List Evictable} {needed : ℕ}

@[simp] lemma Entry.stripped_stripped (e : Entry) : e.stripped.stripped = e.stripped := by
  simp [stripped]

lemma Entry.host_notMem_stripped (e : Entry) : .host ∉ e.stripped.placementTiers := by
  simp +contextual [stripped, placementTiers]

/-! ### One entry -/

/-- A removal takes the placement off, whatever becomes of the tier under it. -/
lemma removePlacement_lookup (env : Env) (he : s.entries.lookup oid.toHex = some e) (t : Tier) :
    (removePlacement env oid t s).state.entries.lookup oid.toHex = some (e.without t) ∧
      ∀ k, k ≠ oid.toHex →
        (removePlacement env oid t s).state.entries.lookup k = s.entries.lookup k := by
  cases hp : e.tier? t with
  | some p =>
    rw [removePlacement_of_some he hp, entries_freePlacement, updateEntry]
    refine ⟨?_, fun k hk => AList.lookup_modify_ne hk⟩
    rw [AList.lookup_modify_self, he]
    rfl
  | none =>
    have hnone : ∀ e', s.entries.lookup oid.toHex = some e' → e'.tier? t = none := by
      intro e' he'
      rw [he] at he'
      cases he'
      exact hp
    obtain ⟨err, herr⟩ := removePlacement_of_none env hnone
    rw [herr]
    refine ⟨?_, fun k _ => rfl⟩
    have hwithout : e.without t = e := by
      rw [Entry.without, List.eraseP_of_forall_not]
      intro p hmem htier
      exact Entry.tier?_eq_none.mp hp (Entry.mem_placementTiers.mpr ⟨p, hmem, by simpa using htier⟩)
    rw [hwithout]
    exact he

/-- The inner loop on an entry `e` of `s₀`: the tiers in `rest` are those of the last placements, and
the placements before them are persistent. -/
structure Stripping (oid : ObjectId) (s₀ : Runtime) (e : Entry) (rest : List Tier) (s : Runtime) :
    Prop where
  entry : ∃ e' kept todo, s.entries.lookup oid.toHex = some e' ∧ e'.placements = kept ++ todo ∧
    (∀ p ∈ kept, p.tier = .persistent) ∧ rest = todo.map Placement.tier ∧ e'.stripped = e.stripped
  others : ∀ k, k ≠ oid.toHex → s.entries.lookup k = s₀.entries.lookup k

/-- One turn of the inner loop. -/
lemma Stripping.turn {s₀ : Runtime} {t : Tier} {rest : List Tier}
    (h : Stripping oid s₀ e (t :: rest) s) (env : Env) :
    (t = .persistent → Stripping oid s₀ e rest s) ∧
      (t ≠ .persistent → Stripping oid s₀ e rest (removePlacement env oid t s).state) := by
  obtain ⟨e', kept, todo, he', hps, hkept, hrest, hstripped⟩ := h.entry
  obtain ⟨p, todo, rfl, rfl, rfl⟩ := List.map_eq_cons_iff.mp hrest.symm
  refine ⟨fun hp => ⟨⟨e', kept ++ [p], todo, he', by simp [hps], fun q hq => ?_, rfl, hstripped⟩,
    h.others⟩, fun hp => ?_⟩
  · rcases List.mem_append.mp hq with hq | hq
    · exact hkept q hq
    · rw [List.mem_singleton.mp hq, hp]
  · obtain ⟨hself, hothers⟩ := removePlacement_lookup env he' p.tier
    -- the first placement in the tier of `p` is `p` itself
    have herase : (e'.without p.tier).placements = kept ++ todo := by
      have hnone : ∀ q ∈ kept, ¬decide (q.tier = p.tier) = true := by
        intro q hq
        simpa [hkept q hq] using Ne.symm hp
      rw [Entry.without, hps, List.eraseP_append_right _ hnone, List.eraseP_cons_of_pos (by simp)]
    refine ⟨⟨_, kept, todo, hself, herase, hkept, rfl, ?_⟩, fun k hk => ?_⟩
    · rw [← hstripped, Entry.stripped, Entry.stripped, herase, hps]
      simp [Entry.without, hp]
    · rw [hothers k hk, h.others k hk]

/-- Stripping an entry succeeds, and leaves exactly its persistent placements. -/
lemma strip_spec (env : Env) (oid : ObjectId) (s : Runtime) :
    ∃ s', strip env oid.toHex s = .ok ⟨⟩ s' ∧
      s'.entries.lookup oid.toHex = (s.entries.lookup oid.toHex).map Entry.stripped ∧
      ∀ k, k ≠ oid.toHex → s'.entries.lookup k = s.entries.lookup k := by
  unfold strip
  rw [ObjectId.fromHex_toHex, ofExcept_ok_bind, get_bind_apply]
  cases he : s.entries.lookup oid.toHex with
  | none => exact ⟨s, rfl, he, fun _ _ => rfl⟩
  | some e =>
    have hloop := Triple.forM (E := fun _ => False) (I := Stripping oid s e)
      (f := fun t => if t = .persistent then pure ⟨⟩ else ignoring (removePlacement env oid t))
      (fun t rest => Triple.ite
        (fun ht => Triple.pure fun s' hs' => (hs'.turn env).1 ht)
        fun ht s' hs' => (hs'.turn env).2 ht) e.placementTiers
    have hstart : Stripping oid s e e.placementTiers s :=
      ⟨⟨e, [], e.placements, he, rfl, by simp, rfl, rfl⟩, fun _ _ => rfl⟩
    obtain ⟨⟨⟩, s', hrun, ⟨e', kept, todo, he', hps, hkept, hrest, hstripped⟩, hothers⟩ :=
      hloop.exists_ok hstart
    refine ⟨s', hrun, ?_, hothers⟩
    have htodo : todo = [] := List.map_eq_nil_iff.mp hrest.symm
    have hself : e'.stripped = e' := by
      rw [Entry.stripped, List.filter_eq_self.mpr]
      rw [hps, htodo, List.append_nil]
      simpa using hkept
    rw [he', ← hself, hstripped]
    rfl

/-! ### The loop -/

/-- The candidates are entries: their keys are object ids. -/
def KeyedBy (order : List Evictable) : Prop := ∀ c ∈ order, ∃ oid : ObjectId, c.objectId = oid.toHex

lemma KeyedBy.take (h : KeyedBy order) (n : ℕ) : KeyedBy (order.take n) :=
  fun c hc => h c (List.mem_of_mem_take hc)

/-- The entries after some candidates have been stripped. -/
lemma lookup_stripAll (h : KeyedBy order) (env : Env) (s : Runtime) (k : Str) :
    (s.stripAll env order).entries.lookup k
      = if k ∈ order.map Evictable.objectId then (s.entries.lookup k).map Entry.stripped
        else s.entries.lookup k := by
  induction order generalizing s with
  | nil => simp [stripAll]
  | cons c order ih =>
    obtain ⟨oid, hoid⟩ := h c (by simp)
    obtain ⟨s', hrun, hself, hothers⟩ := strip_spec env oid s
    have hstep : s.stripAll env (c :: order) = s'.stripAll env order := by
      rw [stripAll, List.foldl_cons, hoid, hrun]
      rfl
    rw [hstep, ih fun c' hc' => h c' (by simp [hc']), List.map_cons, hoid]
    by_cases hk : k = oid.toHex
    · subst hk
      rw [if_pos List.mem_cons_self, hself]
      split_ifs
      · rw [Option.map_map]
        congr 1
        funext e
        exact e.stripped_stripped
      · rfl
    · rw [hothers k hk]
      simp [hk]

/-- The loop strips a prefix of the candidates: it stops as soon as there is no need, and not
before. -/
lemma stripWhile_spec (h : KeyedBy order) (env : Env) (need : Runtime → Bool) (s : Runtime) :
    ∃ n ≤ order.length, stripWhile env need order s = .ok ⟨⟩ (s.stripAll env (order.take n)) ∧
      (∀ i < n, need (s.stripAll env (order.take i)) = true) ∧
      (need (s.stripAll env (order.take n)) = false ∨ n = order.length) := by
  induction order generalizing s with
  | nil => exact ⟨0, le_refl 0, rfl, by simp, Or.inr rfl⟩
  | cons c order ih =>
    obtain ⟨oid, hoid⟩ := h c (by simp)
    obtain ⟨s', hrun, -⟩ := strip_spec env oid s
    have hstep : ∀ n, s.stripAll env ((c :: order).take (n + 1))
        = s'.stripAll env (order.take n) := by
      intro n
      rw [List.take_succ_cons, stripAll, List.foldl_cons, hoid, hrun]
      rfl
    cases hneed : need s with
    | false =>
      refine ⟨0, Nat.zero_le _, ?_, by simp, Or.inl hneed⟩
      rw [stripWhile, get_bind_apply, hneed]
      rfl
    | true =>
      obtain ⟨n, hn, hloop, hbefore, hafter⟩ := ih (fun c' hc' => h c' (by simp [hc'])) s'
      refine ⟨n + 1, Nat.succ_le_succ hn, ?_, fun i hi => ?_, ?_⟩
      · rw [hstep, ← hloop, stripWhile, get_bind_apply, hneed, if_pos rfl, hoid]
        change EStateM.bind _ _ s = _
        simp only [EStateM.bind, hrun]
      · cases i with
        | zero => exact hneed
        | succ i =>
          rw [hstep]
          exact hbefore i (by omega)
      · rw [hstep]
        exact hafter.imp_right fun hlen => by rw [hlen, List.length_cons]

/-! ### What is promised -/

/-- The candidates are the non-durable entries in the host tier. -/
lemma mem_victims {c : Evictable} : c ∈ s.victims env ↔
    ∃ key e, s.entries.lookup key = some e ∧ .host ∈ e.placementTiers ∧ e.durable = false ∧
      c = s.candidate env key e := by
  rw [victims, mem_evictionOrder, evictables, List.mem_filterMap]
  constructor
  · rintro ⟨⟨key, e⟩, hmem, hc⟩
    dsimp only at hc
    split_ifs at hc with hcond
    cases hc
    exact ⟨key, e, AList.mem_entries_iff.mp hmem, Entry.hasTier_iff.mp hcond.1, hcond.2, rfl⟩
  · rintro ⟨key, e, he, hhost, hdurable, rfl⟩
    refine ⟨⟨key, e⟩, AList.mem_entries_iff.mpr he, ?_⟩
    dsimp only
    rw [if_pos ⟨Entry.hasTier_iff.mpr hhost, hdurable⟩]
    rfl

lemma mem_map_victims : k ∈ (s.victims env).map Evictable.objectId ↔
    ∃ e, s.entries.lookup k = some e ∧ .host ∈ e.placementTiers ∧ e.durable = false := by
  rw [List.mem_map]
  constructor
  · rintro ⟨c, hc, rfl⟩
    obtain ⟨key, e, he, hhost, hdurable, rfl⟩ := mem_victims.mp hc
    exact ⟨e, he, hhost, hdurable⟩
  · rintro ⟨e, he, hhost, hdurable⟩
    exact ⟨s.candidate env k e, mem_victims.mpr ⟨k, e, he, hhost, hdurable, rfl⟩, rfl⟩

/-- No entry is a candidate twice. -/
lemma nodup_victims (env : Env) (s : Runtime) :
    ((s.victims env).map Evictable.objectId).Nodup := by
  rw [victims, ((evictionOrder_perm _).map Evictable.objectId).nodup_iff, evictables,
    List.map_filterMap, List.nodup_iff_pairwise_ne]
  refine (List.nodupKeys_iff_pairwise.mp s.entries.nodupKeys).filterMap _ ?_
  rintro ⟨k, e⟩ ⟨k', e'⟩ hne x hx x' hx'
  dsimp only at hx hx'
  split_ifs at hx with hcond <;> split_ifs at hx' with hcond' <;> simp_all

lemma keyedBy_victims (h : Keyed s) (env : Env) : KeyedBy (s.victims env) := by
  intro c hc
  obtain ⟨key, e, he, -, -, rfl⟩ := mem_victims.mp hc
  exact h key e he

/-- `evict_to_free` strips the first `n` of its candidates. -/
lemma evictToFree_eq (h : Keyed s) (env : Env) (needed : ℕ) :
    ∃ n ≤ (s.victims env).length,
      evictToFree env needed s = .ok ⟨⟩ (s.stripAll env ((s.victims env).take n)) ∧
      (∀ i < n, (s.stripAll env ((s.victims env).take i)).accounting.free .host < needed) ∧
      (needed ≤ (s.stripAll env ((s.victims env).take n)).accounting.free .host ∨
        n = (s.victims env).length) := by
  unfold evictToFree
  rw [get_bind_apply]
  by_cases hfree : needed ≤ s.accounting.free .host
  · rw [if_pos hfree]
    exact ⟨0, Nat.zero_le _, rfl, by simp, Or.inl hfree⟩
  · rw [if_neg hfree]
    obtain ⟨n, hn, hloop, hbefore, hafter⟩ := stripWhile_spec (keyedBy_victims h env) env
      (fun s => s.accounting.free .host < needed) s
    refine ⟨n, hn, hloop, fun i hi => by simpa using hbefore i hi, hafter.imp_left fun hstop => ?_⟩
    simpa using hstop

/-- In every reachable state `evict_to_free` strips a prefix of its candidates in eviction order,
each of them only while there was need, until enough is free or no candidate is left. Everything
else keeps its placements, and the persistent ones are all kept. -/
theorem evictToFree_promise (h : Reachable s) (env : Env) (needed : ℕ) :
    ∃ n s', evictToFree env needed s = .ok ⟨⟩ s' ∧
      s' = s.stripAll env ((s.victims env).take n) ∧
      (∀ i < n, (s.stripAll env ((s.victims env).take i)).accounting.free .host < needed) ∧
      (needed ≤ s'.accounting.free .host ∨
        ∀ k e, s'.entries.lookup k = some e → e.durable = false → .host ∉ e.placementTiers) ∧
      (∀ k, k ∈ ((s.victims env).take n).map Evictable.objectId →
        s'.entries.lookup k = (s.entries.lookup k).map Entry.stripped) ∧
      (∀ k, k ∉ ((s.victims env).take n).map Evictable.objectId →
        s'.entries.lookup k = s.entries.lookup k) ∧
      (∀ k e, s.entries.lookup k = some e → e.durable = true ∨ .host ∉ e.placementTiers →
        s'.entries.lookup k = some e) ∧
      (∀ k e, s.entries.lookup k = some e → ∃ e', s'.entries.lookup k = some e' ∧
        ∀ p ∈ e.placements, p.tier = .persistent → p ∈ e'.placements) ∧
      ((s.victims env).map Evictable.objectId).Nodup ∧
      ∀ c, c ∈ s.victims env ↔ ∃ key e, s.entries.lookup key = some e ∧
        .host ∈ e.placementTiers ∧ e.durable = false ∧ c = s.candidate env key e := by
  obtain ⟨n, hn, hrun, hbefore, hafter⟩ := evictToFree_eq h.keyed env needed
  have hlook := lookup_stripAll ((keyedBy_victims h.keyed env).take n) env s
  have htaken : ∀ k, k ∈ ((s.victims env).take n).map Evictable.objectId →
      k ∈ (s.victims env).map Evictable.objectId :=
    fun k hk => ((List.take_sublist n _).map _).subset hk
  refine ⟨n, _, hrun, rfl, hbefore, hafter.imp_right ?_, fun k hk => ?_, fun k hk => ?_,
    fun k e he hkeep => ?_, fun k e he => ?_, nodup_victims env s,
    fun c => mem_victims⟩
  · rintro hall k e he hdurable hhost
    rw [hall, List.take_length] at he hlook
    rw [hlook] at he
    split_ifs at he with hk
    · obtain ⟨e₀, -, rfl⟩ := Option.map_eq_some_iff.mp he
      exact e₀.host_notMem_stripped hhost
    · exact hk (mem_map_victims.mpr ⟨e, he, hhost, hdurable⟩)
  · rw [hlook, if_pos hk]
  · rw [hlook, if_neg hk]
  · rw [hlook, if_neg, he]
    intro hk
    obtain ⟨e', he', hhost, hdurable⟩ := mem_map_victims.mp (htaken k hk)
    rw [he] at he'
    cases he'
    rcases hkeep with hkeep | hkeep
    · rw [hdurable] at hkeep
      cases hkeep
    · exact hkeep hhost
  · rw [hlook, he]
    split_ifs
    · exact ⟨e.stripped, rfl, fun p hp htier => List.mem_filter.mpr ⟨hp, by simpa using htier⟩⟩
    · exact ⟨e, rfl, fun p hp _ => hp⟩

/-- A registered pair of bytes goes when all of the host tier is needed. -/
theorem evictToFree_promise_bytePair :
    ∃ s', evictToFree {} 8 ((initial smallConfig [] none).exec
        ⟨{}, .register (bytePair 0 1 2)⟩) = .ok ⟨⟩ s' ∧
      (8 ≤ s'.accounting.free .host ∨
        ∀ k e, s'.entries.lookup k = some e → e.durable = false → .host ∉ e.placementTiers) := by
  have hopen : Runtime.new {} smallConfig [] ∅ 0 = .ok (initial smallConfig [] none) := rfl
  have hnew : Reachable (initial smallConfig [] none) := .new hopen
  obtain ⟨n, s', hrun, -, -, hfreed, -⟩ :=
    evictToFree_promise (hnew.exec ⟨{}, .register (bytePair 0 1 2)⟩) {} 8
  exact ⟨s', hrun, hfreed⟩

end TensorCache
