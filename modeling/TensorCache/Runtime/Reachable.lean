import TensorCache.Runtime.Recovery

/-!
# Reachable states

A runtime is opened on any files, whatever is in them, and then called any number of times,
recovery included (`Reachable`). Two things hold in all these states, whatever the digests are:
the ledger of the host tier is within its capacity with nothing reserved (`Ledger`), and entries
are stored under the hexadecimal form of an object id (`Keyed`). `Ledger.call_rule` is the rule
for further properties that do not rest on the digests.
-/

namespace TensorCache

open Codec EStateM

namespace Runtime

/-- The states that public calls lead to, from a runtime opened on any files. -/
inductive Reachable : Runtime → Prop where
  | new {env : Env} {config : RuntimeConfig} {extra : List Backend} {disk : Disk} {pid : ℕ}
      {s : Runtime} (h : new env config extra disk pid = .ok s) : Reachable s
  | exec {s : Runtime} (h : Reachable s) (ev : Event) : Reachable (s.exec ev)
  | recover {s : Runtime} (h : Reachable s) (env : Env) : Reachable (recover env s).1

/-- The ledger of the host tier is within its capacity, and nothing is reserved. -/
structure Ledger (s : Runtime) : Prop where
  budget : s.accounting.host.Wf
  reserved : s.accounting.host.reserved = 0

/-- Entries are stored under object ids. -/
def Keyed (s : Runtime) : Prop :=
  ∀ k e, s.entries.lookup k = some e → ∃ oid : ObjectId, k = oid.toHex

variable {env : Env} {s s₀ s' : Runtime} {oid : ObjectId} {t : Tier} {c : Call}
  {X : Runtime → Prop}

/-! ### The ledger -/

namespace Ledger

lemma fits (h : Ledger s) : Fits s := by
  have := h.budget.fits
  change s.accounting.host.used ≤ s.accounting.host.capacity
  omega

lemma takeIn (h : Ledger s) {n : ℕ} (hn : n ≤ s.accounting.free .host) (p : Bytes)
    (blocks : List BlockRef) :
    ∃ acquired host, onHost (HostTier.takeIn p blocks n) s = .ok acquired (s.setHostTier host) ∧
      Ledger (s.setHostTier host) := by
  have hrun := HostTier.takeIn_of_le h.budget (t := s.hostTier) hn p blocks
  refine ⟨_, _, zoom_of_ok hrun, ?_, h.reserved⟩
  have hle : n ≤ s.accounting.host.capacity
      - (s.accounting.host.used + s.accounting.host.reserved) := by
    rw [← h.budget.free_eq]
    exact hn
  have := h.budget.fits
  exact ⟨h.budget.small, by simp only [setHostTier, hostTier]; omega⟩

lemma addPlacement (h : Ledger s) (env : Env) (oid : ObjectId) (t : Tier) (bytes : Bytes) :
    Ledger (addPlacement env oid t bytes s).state := by
  refine Triple.state (P := (· = s)) (I := Ledger) ?_ rfl
  have hstop : ∀ s', s' = s → Ledger s' := by
    rintro s rfl
    exact h
  refine Triple.get_bind ?_
  rintro s rfl
  cases he : s.getMeta oid with
  | error err => exact Triple.throw hstop
  | ok e =>
    rw [ofExcept_ok_bind]
    refine Triple.ite (fun _ => Triple.throw hstop) fun _ => ?_
    cases t with
    | host =>
      cases hplan : s.hostPlan e.byteLen bytes with
      | error err => exact Triple.throw hstop
      | ok plan =>
        obtain ⟨blocks, n⟩ := plan
        rw [ofExcept_ok_bind]
        refine Triple.bind (Q := fun _ => Ledger) ?_ fun acquired =>
          Triple.modify fun s' hs' => ⟨hs'.budget, hs'.reserved⟩
        rintro s rfl
        obtain ⟨acquired, host, hrun, hledger⟩ := h.takeIn (hostPlan_ok hplan).2.2 bytes blocks
        rw [hrun]
        exact hledger
    | accelerator id =>
      refine Triple.bind (Q := fun _ => Ledger) ?_ fun dev =>
        Triple.modify fun s' hs' => ⟨hs'.budget, hs'.reserved⟩
      exact zoom_triple fun d => ⟨h.budget, h.reserved⟩
    | persistent =>
      refine Triple.bind (Q := fun _ => Ledger) ?_ fun _ =>
        Triple.modify fun s' hs' => ⟨hs'.budget, hs'.reserved⟩
      exact zoom_triple fun d => ⟨h.budget, h.reserved⟩

lemma removePlacement (h : Ledger s) (env : Env) (oid : ObjectId) (t : Tier) :
    Ledger (removePlacement env oid t s).state := by
  by_cases hp : ∀ e, s.entries.lookup oid.toHex = some e → e.tier? t = none
  · obtain ⟨err, herr⟩ := removePlacement_of_none env hp
    rw [herr]
    exact h
  · push Not at hp
    obtain ⟨e, he, hp⟩ := hp
    obtain ⟨p, hp⟩ := Option.ne_none_iff_exists'.mp hp
    rw [removePlacement_of_some he hp]
    cases p with
    | host refs =>
      rw [freePlacement, onHost, zoom_state]
      obtain ⟨hbudget, hreserved⟩ :=
        (HostTier.release_keeps_budget refs).state (s := s.hostTier) ⟨h.budget, h.reserved⟩
      exact ⟨hbudget, hreserved⟩
    | accelerator dev =>
      rw [freePlacement, onDevices, zoom_state]
      exact ⟨h.budget, h.reserved⟩
    | persistent =>
      rw [freePlacement, onDurable, zoom_state]
      exact ⟨h.budget, h.reserved⟩

end Ledger

/-- What has to be shown of the moves of a call that begins in `s₀`, for a property that it keeps
while the ledger is in order. -/
structure Moves (env : Env) (c : Call) (s₀ : Runtime) (X : Runtime → Prop) : Prop where
  start : X s₀
  touch : ∀ s oid f, Entry.Touches f → X s → X (updateEntry oid f s)
  add : ∀ oid t bytes, c.adds = some (oid, t) → s₀.entryHasTier oid t = .ok false →
    X (addPlacement env oid t bytes s₀).state
  remove : ∀ s oid t, c.Removes s₀ s oid t → X s → X (removePlacement env oid t s).state
  enter : ∀ r byteLen numel blocks acquired host s, c = .register r →
    s.entries.lookup r.address.objectId.toHex = none → X s →
    X (insertEntry r.address.objectId.toHex (newEntry env r byteLen numel blocks acquired)
      (s.setHostTier host))
  forget : ∀ s oid e, c = .delete oid → X s → s.entries.lookup oid.toHex = some e →
    e.placements = [] → X (removeEntry oid s)
  clean : ∀ d s, X s → X (s.setDurable d)

/-- The rule for calls while the ledger is in order. -/
theorem Ledger.call_rule (h : Ledger s₀) (hX : Moves env c s₀ X) :
    Triple (· = s₀) (call env c) (fun _ s => Ledger s ∧ X s) (fun s => Ledger s ∧ X s) := by
  refine Runtime.call_rule ⟨⟨h, hX.start⟩, fun s hs => hs.1.fits, fun s oid f hf hs => ?_,
    fun oid t bytes hadds _ hres => ?_, fun s oid t hrem hs => ?_,
    fun r byteLen numel blocks s hc hcheck hs hkeys hfits => ?_,
    fun s oid e hc hs he hempty => ?_, fun s oid hc hs he => ?_, fun _ _ hs => hs⟩
  · exact ⟨⟨hs.1.budget, hs.1.reserved⟩, hX.touch s oid f hf hs.2⟩
  · exact ⟨h.addPlacement env oid t bytes, hX.add oid t bytes hadds hres⟩
  · exact ⟨hs.1.removePlacement env oid t, hX.remove s oid t hrem hs.2⟩
  · obtain ⟨-, -, -, -, hnone⟩ := registerCheck_ok hcheck
    obtain ⟨acquired, host, hrun, hledger⟩ := hs.1.takeIn hfits r.payload blocks
    refine ⟨insertEntry r.address.objectId.toHex (newEntry env r byteLen numel blocks acquired)
      (s.setHostTier host), ?_, hledger.fits, fun _ => ⟨⟨hledger.budget, hledger.reserved⟩, ?_⟩⟩
    · change EStateM.bind _ _ s = _
      simp only [EStateM.bind, hrun]
      rfl
    · exact hX.enter r byteLen numel blocks acquired host s hc (hkeys _ hnone) hs.2
  · refine ⟨?_, hX.forget s oid e hc hs.2 he hempty⟩
    rw [removeEntry, he]
    exact ⟨hs.1.budget, hs.1.reserved⟩
  · rw [removeManifest_state]
    exact ⟨⟨hs.1.budget, hs.1.reserved⟩, hX.clean _ s hs.2⟩

/-- One call of a run. -/
theorem Ledger.exec (h : Ledger s) {ev : Event} (hX : Moves ev.env ev.call s.beginCall X) :
    Ledger (s.exec ev) ∧ X (s.exec ev) :=
  Triple.state (P := (· = s.beginCall)) (Ledger.call_rule ⟨h.budget, h.reserved⟩ hX) rfl

/-- A registration that passes its checks returns once there is room, and its entry is the new
one. -/
lemma Ledger.register_of_makeRoom (h : Ledger s') {r : Registration} {byteLen numel : UInt64}
    {blocks : List BlockRef} (hcheck : s.registerCheck r = .ok (byteLen, numel, blocks))
    (hroom : makeRoom env (newBytes s.host.contains blocks) s = .ok ⟨⟩ s')
    (hfits : newBytes s.host.contains blocks ≤ s'.accounting.free .host) :
    ∃ s'' acquired, register env r s = .ok r.address.objectId s'' ∧
      s''.entries.lookup r.address.objectId.toHex
        = some (newEntry env r byteLen numel blocks acquired) := by
  obtain ⟨acquired, host, hrun, hledger⟩ := h.takeIn hfits r.payload blocks
  have hadmitted : admitEntry env r byteLen numel blocks (newBytes s.host.contains blocks) s'
      = .ok ⟨⟩ (insertEntry r.address.objectId.toHex (newEntry env r byteLen numel blocks acquired)
        (s'.setHostTier host)) := by
    change EStateM.bind _ _ s' = _
    simp only [EStateM.bind, hrun]
    rfl
  have henforce := @enforceCapacity_of_le env (insertEntry r.address.objectId.toHex
    (newEntry env r byteLen numel blocks acquired) (s'.setHostTier host)) hledger.fits
  refine ⟨insertEntry r.address.objectId.toHex (newEntry env r byteLen numel blocks acquired)
    (s'.setHostTier host), acquired, ?_, AList.lookup_insert _⟩
  unfold register
  rw [get_bind_apply, hcheck, ofExcept_ok_bind]
  change EStateM.bind _ _ s = _
  simp only [EStateM.bind, hroom]
  change EStateM.bind _ _ s' = _
  simp only [EStateM.bind, hadmitted]
  change EStateM.bind _ _ _ = _
  simp only [EStateM.bind, henforce]
  rfl

/-- A registration that passes its checks and fits returns. -/
lemma Ledger.register_returns (h : Ledger s) {r : Registration} {byteLen numel : UInt64}
    {blocks : List BlockRef} (hcheck : s.registerCheck r = .ok (byteLen, numel, blocks))
    (hfits : newBytes s.host.contains blocks ≤ s.accounting.free .host) (env : Env) :
    ∃ s' acquired, register env r s = .ok r.address.objectId s' ∧
      s'.entries.lookup r.address.objectId.toHex
        = some (newEntry env r byteLen numel blocks acquired) := by
  refine h.register_of_makeRoom hcheck ?_ hfits
  unfold makeRoom
  rw [get_bind_apply, if_neg (not_lt.mpr hfits)]
  rfl

/-! ### Entries under the moves -/

/-- A property of all entries that does not look at their placements. -/
lemma Moves.forall_entries {P : Str → Entry → Prop}
    (hstart : ∀ k e, s₀.entries.lookup k = some e → P k e)
    (htouch : ∀ k e f, Entry.Touches f → P k e → P k (f e))
    (hplaced : ∀ k e placements, P k e → P k { e with placements := placements })
    (henter : ∀ r byteLen numel blocks acquired, c = .register r →
      P r.address.objectId.toHex (newEntry env r byteLen numel blocks acquired)) :
    Moves env c s₀ fun s => ∀ k e, s.entries.lookup k = some e → P k e where
  start := hstart
  touch s oid f hf hs := AList.forall_modify hs fun e _ he => htouch _ e f hf he
  add oid t bytes _ _ := by
    have hadd := addPlacement_entries env oid t bytes s₀ s₀ rfl
    cases hrun : Runtime.addPlacement env oid t bytes s₀ with
    | ok u s' =>
      rw [hrun] at hadd
      obtain ⟨e, p, -, -, hentries⟩ := hadd
      rw [Result.state_ok, hentries]
      exact AList.forall_modify hstart fun e' _ he' => hplaced _ e' _ he'
    | error err s' =>
      rw [hrun] at hadd
      rw [Result.state_error, hadd]
      exact hstart
  remove s oid t _ hs := by
    rcases removePlacement_entries env oid t s with hentries | ⟨err, herr⟩
    · rw [hentries]
      exact AList.forall_modify hs fun e _ he => hplaced _ e _ he
    · rw [herr]
      exact hs
  enter r byteLen numel blocks acquired host s hc _ hs :=
    AList.forall_insert hs (henter r byteLen numel blocks acquired hc)
  forget s oid e _ hs he _ := by
    have hentries : (removeEntry oid s).entries = s.entries.erase oid.toHex := by
      rw [removeEntry, he]
    rw [hentries]
    exact AList.forall_erase hs _
  clean d s hs := hs

lemma Keyed.moves (h : Keyed s₀) : Moves env c s₀ Keyed :=
  Moves.forall_entries h (fun _ _ _ _ he => he) (fun _ _ _ he => he)
    fun r _ _ _ _ _ => ⟨r.address.objectId, rfl⟩

namespace Reachable

theorem ledger (h : Reachable s) : Ledger s := by
  induction h with
  | @new env config extra disk pid s h =>
    refine new_keeps (P := Ledger) (fun _ _ _ hs => ⟨hs.budget, hs.reserved⟩)
      (fun _ _ hs => ⟨hs.budget, hs.reserved⟩) (fun st => ?_) h
    exact ⟨(hostTier_initial ∅ config extra st).budget, rfl⟩
  | exec _ ev ih =>
    exact (ih.exec (X := fun _ => True) (by constructor <;> simp)).1
  | recover _ env ih =>
    exact recover_keeps (P := Ledger) (fun _ _ _ hs => ⟨hs.budget, hs.reserved⟩)
      (fun _ _ hs => ⟨hs.budget, hs.reserved⟩) ih

theorem keyed (h : Reachable s) : Keyed s := by
  have hinsert : ∀ (env : Env) (oid : ObjectId) m s, Keyed s →
      Keyed (insertEntry oid.toHex (recoveredEntry env oid.toHex m) s) :=
    fun _ oid _ _ hs => AList.forall_insert hs ⟨oid, rfl⟩
  induction h with
  | new h =>
    refine new_keeps (P := Keyed) (hinsert _) (fun _ _ hs => hs) (fun st => ?_) h
    intro k e he
    simp [initial] at he
  | exec h ev ih => exact (h.ledger.exec (Keyed.moves ih)).2
  | recover _ env ih => exact recover_keeps (P := Keyed) (hinsert env) (fun _ _ hs => hs) ih

end Reachable

end Runtime

end TensorCache
