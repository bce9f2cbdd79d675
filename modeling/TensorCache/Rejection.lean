import TensorCache.Eviction

/-!
# Registrations that are rejected

A registration makes room before it knows whether there will be enough. If the payload does not fit
even after all candidates have been evicted, the registration fails, and the evicted objects are
gone. This is the only way a failed registration changes anything.
-/

namespace TensorCache

open Codec EStateM TensorCache.Runtime

variable {env : Env} {s s' : Runtime} {r : Registration}

/-! ### Eviction and the free bytes -/

lemma HostTier.release_keeps_free (n : ℕ) (refs : List BlockRef) :
    Keeps (fun t : HostTier => n ≤ t.budget.free) (release refs) := by
  refine Keeps.forM fun b _ => keeps_iff.mpr fun t ht => ?_
  cases hf : (t.arena.release b.contentHash).1 with
  | false =>
    rw [releaseBlock_kept hf]
    exact ht
  | true =>
    rw [releaseBlock_freed hf, onBudget, zoom_state]
    simp only [Budget.subUsed]
    split_ifs
    · exact ht
    · refine ht.trans ?_
      simp only [Result.state_ok, Budget.free, saturatingAdd]
      omega

/-- Removing a placement never takes free bytes away. -/
lemma free_removePlacement {n : ℕ} (h : n ≤ s.accounting.free .host) (env : Env) (oid : ObjectId)
    (t : Tier) : n ≤ (removePlacement env oid t s).state.accounting.free .host := by
  by_cases hp : ∀ e, s.entries.lookup oid.toHex = some e → e.tier? t = none
  · obtain ⟨err, herr⟩ := removePlacement_of_none env hp
    rw [herr]
    exact h
  · push Not at hp
    obtain ⟨e, he, hp⟩ := hp
    obtain ⟨p, hp⟩ := Option.ne_none_iff_exists'.mp hp
    rw [removePlacement_of_some he hp]
    cases p with
    | host refs =>
      rw [freePlacement, onHost, zoom_state]
      exact (HostTier.release_keeps_free n refs).state (s := s.hostTier) h
    | accelerator dev =>
      rw [freePlacement, onDevices, zoom_state]
      exact h
    | persistent =>
      rw [freePlacement, onDurable, zoom_state]
      exact h

lemma free_stripAll {n : ℕ} (h : n ≤ s.accounting.free .host) (env : Env)
    (order : List Evictable) : n ≤ (s.stripAll env order).accounting.free .host := by
  induction order generalizing s with
  | nil => exact h
  | cons c order ih =>
    have hstrip : Keeps (fun s : Runtime => n ≤ s.accounting.free .host) (strip env c.objectId) :=
      strip_keeps fun s oid t _ _ hs => free_removePlacement hs env oid t
    exact ih (hstrip.state h)

/-- The more candidates are evicted, the more is free. -/
lemma free_stripAll_take (env : Env) (order : List Evictable) (n : ℕ) (s : Runtime) :
    (s.stripAll env (order.take n)).accounting.free .host
      ≤ (s.stripAll env order).accounting.free .host := by
  have hsplit : s.stripAll env order
      = (s.stripAll env (order.take n)).stripAll env (order.drop n) := by
    rw [stripAll, stripAll, stripAll, ← List.foldl_append, List.take_append_drop]
  rw [hsplit]
  exact free_stripAll (le_refl _) env _

/-! ### A registration that fails -/

/-- A registration that passes its checks but does not fit, whatever is evicted for it. -/
def NeverFits (env : Env) (r : Registration) (s : Runtime) : Prop :=
  ∃ byteLen numel blocks, s.registerCheck r = .ok (byteLen, numel, blocks) ∧
    (s.stripAll env (s.victims env)).accounting.free .host < newBytes s.host.contains blocks

/-- Eviction keeps the ledger in order. -/
lemma ledger_stripAll (h : Ledger s) (env : Env) (order : List Evictable) :
    Ledger (s.stripAll env order) := by
  induction order generalizing s with
  | nil => exact h
  | cons c order ih =>
    have hstrip : Keeps Ledger (strip env c.objectId) :=
      strip_keeps fun s oid t _ _ hs => hs.removePlacement env oid t
    exact ih (hstrip.state h)

/-- A registration returns, or it fails where it began, or it fails with all candidates evicted. -/
lemma register_cases (h : Reachable s) (env : Env) (r : Registration) :
    ((∃ oid s', register env r s = .ok oid s') ∧ ¬NeverFits env r s) ∨
      ((∃ err, register env r s = .error err s) ∧ ¬NeverFits env r s) ∨
      ((∃ err, register env r s = .error err (s.stripAll env (s.victims env))) ∧
        NeverFits env r s) := by
  cases hcheck : s.registerCheck r with
  | error err =>
    refine Or.inr (Or.inl ⟨⟨err, ?_⟩, ?_⟩)
    · unfold register
      rw [get_bind_apply, hcheck, ofExcept_error_bind]
      rfl
    · rintro ⟨byteLen, numel, blocks, hok, -⟩
      rw [hcheck] at hok
      cases hok
  | ok checked =>
    obtain ⟨byteLen, numel, blocks⟩ := checked
    have hnever : NeverFits env r s ↔ (s.stripAll env (s.victims env)).accounting.free .host
        < newBytes s.host.contains blocks := by
      constructor
      · rintro ⟨_, _, _, hok, hlt⟩
        rw [hcheck] at hok
        cases hok
        exact hlt
      · exact fun hlt => ⟨byteLen, numel, blocks, hcheck, hlt⟩
    rw [hnever]
    obtain ⟨n, hn, hrun, hbefore, hafter⟩ :=
      evictToFree_eq h.keyed env (newBytes s.host.contains blocks)
    have hmore := free_stripAll_take env (s.victims env) n s
    by_cases hroom : newBytes s.host.contains blocks
        ≤ (s.stripAll env ((s.victims env).take n)).accounting.free .host
    · -- there is room, after the first `n` candidates have been evicted
      refine Or.inl ⟨?_, by omega⟩
      by_cases hfits : newBytes s.host.contains blocks ≤ s.accounting.free .host
      · obtain ⟨s', -, hreg, -⟩ := h.ledger.register_returns hcheck hfits env
        exact ⟨_, s', hreg⟩
      · have hmake : makeRoom env (newBytes s.host.contains blocks) s
            = .ok ⟨⟩ (s.stripAll env ((s.victims env).take n)) := by
          unfold makeRoom
          rw [get_bind_apply, if_pos (not_le.mp hfits)]
          change EStateM.bind _ _ s = _
          simp only [EStateM.bind, hrun]
          rw [get_bind_apply, if_neg (not_lt.mpr hroom)]
          rfl
        obtain ⟨s', -, hreg, -⟩ :=
          (ledger_stripAll h.ledger env _).register_of_makeRoom hcheck hmake hroom
        exact ⟨_, s', hreg⟩
    · have hall := hafter.resolve_left hroom
      rw [hall, List.take_length] at hrun hroom
      have hfits : ¬newBytes s.host.contains blocks ≤ s.accounting.free .host := by
        intro hle
        exact hroom (free_stripAll hle env _)
      refine Or.inr (Or.inr ⟨?_, not_le.mp hroom⟩)
      unfold register
      rw [get_bind_apply, hcheck, ofExcept_ok_bind]
      have hmake : makeRoom env (newBytes s.host.contains blocks) s
          = .error (.admissionRejected "no capacity after eviction")
            (s.stripAll env (s.victims env)) := by
        unfold makeRoom
        rw [get_bind_apply, if_pos (not_le.mp hfits)]
        change EStateM.bind _ _ s = _
        simp only [EStateM.bind, hrun]
        rw [get_bind_apply, if_pos (not_le.mp hroom)]
        rfl
      change ∃ err, EStateM.bind _ _ s = _
      simp only [EStateM.bind, hmake]
      exact ⟨_, rfl⟩

/-- Nobody is harmed: every object that was somewhere is still there, with its bytes, and all
accounts are what they were. -/
structure Unharmed (s s' : Runtime) : Prop where
  placements : ∀ k e, s.entries.lookup k = some e → e.placements ≠ [] →
    ∃ e', s'.entries.lookup k = some e' ∧ e'.placements = e.placements
  bytes : ∀ (oid : ObjectId) e, s.entries.lookup oid.toHex = some e → e.placements ≠ [] →
    s'.materializePayload oid = s.materializePayload oid
  accounting : s'.accounting = s.accounting
  storageUsed : s'.storageUsed = s.storageUsed
  accelUsed : s'.accelUsed = s.accelUsed

lemma Unharmed.refl (s : Runtime) : Unharmed s s :=
  ⟨fun _ e he _ => ⟨e, he, rfl⟩, fun _ _ _ _ => rfl, rfl, rfl, rfl⟩

/-- In every reachable state a registration that fails harms nobody exactly if it is not one that
never fits, or if there is nothing to evict. -/
theorem rejected_unharmed_iff (h : Reachable s) (env : Env) (r : Registration) :
    (∀ err s', register env r s = .error err s' → Unharmed s s') ↔
      (NeverFits env r s →
        ∀ k e, s.entries.lookup k = some e → .host ∈ e.placementTiers → e.durable = true) := by
  rcases register_cases h env r with ⟨⟨oid, s', hrun⟩, hnot⟩ | ⟨⟨err, hrun⟩, hnot⟩ |
    ⟨⟨err, hrun⟩, hnever⟩
  · rw [hrun]
    refine ⟨fun _ hnever => absurd hnever hnot, ?_⟩
    rintro - err s' ⟨⟩
  · rw [hrun]
    refine ⟨fun _ hnever => absurd hnever hnot, ?_⟩
    rintro - err s' ⟨⟩
    exact Unharmed.refl s
  · rw [hrun]
    constructor
    · intro hharm _ k e he hhost
      by_contra hdurable
      have hvictim : k ∈ (s.victims env).map Evictable.objectId :=
        mem_map_victims.mpr ⟨e, he, hhost, by simpa using hdurable⟩
      have hne : e.placements ≠ [] := by
        intro hnil
        simp [Entry.placementTiers, hnil] at hhost
      -- the object is not in the host tier any more
      obtain ⟨e', he', hsame⟩ := (hharm err _ rfl).placements k e he hne
      rw [lookup_stripAll (keyedBy_victims h.keyed env), if_pos hvictim, he] at he'
      cases he'
      refine e.host_notMem_stripped ?_
      rw [Entry.placementTiers, hsame]
      exact hhost
    · rintro hdurable err s' ⟨⟩
      have hnone : s.victims env = [] := by
        rw [List.eq_nil_iff_forall_not_mem]
        intro c hc
        obtain ⟨key, e, he, hhost, hnot, -⟩ := mem_victims.mp hc
        rw [hdurable hnever key e he hhost] at hnot
        cases hnot
      rw [hnone]
      exact Unharmed.refl s

/-- A tensor of ten bytes. -/
def tenBytes : Registration where
  address := ⟨.lit "", .lit "", 10⟩
  compat := { dtype := .u8, shape := ⟨[10], by decide, by simp [maxDim]⟩ }
  payload := List.replicate 10 0
  payload_small := by simp
  compat_small := by decide

/-- Ten bytes do not fit into eight, and an empty cache has nothing to lose. -/
theorem rejected_unharmed_tenBytes :
    ∃ err s', register {} tenBytes (initial smallConfig [] none) = .error err s' ∧
      Unharmed (initial smallConfig [] none) s' := by
  have hnew : new {} smallConfig [] ∅ 0 = .ok (initial smallConfig [] none) := rfl
  have hfails : (register {} tenBytes).run' (initial smallConfig [] none) = none := by
    decide +kernel
  cases hrun : register {} tenBytes (initial smallConfig [] none) with
  | ok oid s' =>
    delta EStateM.run' EStateM.run at hfails
    rw [hrun] at hfails
    cases hfails
  | error err s' =>
    refine ⟨err, s', rfl, (rejected_unharmed_iff (.new hnew) {} tenBytes).mpr ?_ err s' hrun⟩
    intro _ k e he
    simp [initial] at he

/-- A pair of bytes is evicted for ten bytes that do not fit into eight. -/
theorem rejected_harms :
    ∃ s err s', Reachable s ∧ register {} tenBytes s = .error err s' ∧
      (∃ e, s.entries.lookup (bytePair 0 1 2).address.objectId.toHex = some e ∧
        e.placements ≠ []) ∧
      (∃ e', s'.entries.lookup (bytePair 0 1 2).address.objectId.toHex = some e' ∧
        e'.placements = []) ∧ ¬Unharmed s s' := by
  have hnew : new {} smallConfig [] ∅ 0 = .ok (initial smallConfig [] none) := rfl
  have hreach := (Reachable.new hnew).exec ⟨{}, .register (bytePair 0 1 2)⟩
  have hfails : (((initial smallConfig [] none).exec
        ⟨{}, .register (bytePair 0 1 2)⟩).entries.lookup
          (bytePair 0 1 2).address.objectId.toHex).any (fun e => !e.placements.isEmpty) = true ∧
      (register {} tenBytes).run' ((initial smallConfig [] none).exec
        ⟨{}, .register (bytePair 0 1 2)⟩) = none ∧
      ((register {} tenBytes ((initial smallConfig [] none).exec
        ⟨{}, .register (bytePair 0 1 2)⟩)).state.entries.lookup
          (bytePair 0 1 2).address.objectId.toHex).any (fun e => e.placements.isEmpty) = true := by
    decide +kernel
  generalize (initial smallConfig [] none).exec ⟨{}, .register (bytePair 0 1 2)⟩ = s
    at hreach hfails
  obtain ⟨hbefore, hfails, hafter⟩ := hfails
  obtain ⟨e, he, hne⟩ := (Option.any_eq_true _ _).mp hbefore
  cases hrun : register {} tenBytes s with
  | ok oid s' =>
    delta EStateM.run' EStateM.run at hfails
    rw [hrun] at hfails
    cases hfails
  | error err s' =>
    rw [hrun, Result.state_error] at hafter
    obtain ⟨e', he', hnil⟩ := (Option.any_eq_true _ _).mp hafter
    have hne' : e.placements ≠ [] := by simpa using hne
    have hnil' : e'.placements = [] := by simpa using hnil
    refine ⟨s, err, s', hreach, hrun, ⟨e, he, hne'⟩, ⟨e', he', hnil'⟩, fun hharm => ?_⟩
    obtain ⟨e'', he'', hsame⟩ := hharm.placements _ e he hne'
    rw [he'] at he''
    cases he''
    exact hne' (hsame.symm.trans hnil')

end TensorCache
