import TensorCache.Runtime.Reachable
import TensorCache.Runtime.Frame
import TensorCache.Runtime.Threads

/-!
# Critical sections that interleave

While the ledger of the host tier is in order there is nothing to enforce, so every call but a
registration that has to make room takes effect in its first critical section. What many threads
do to a runtime is therefore what their calls do one after the other, in the order of these
sections (`replay`), except that uses are recorded later and that registrations that make room are
cut in pieces. `guarantees_call` shows it for one thread among others, `system_threads` for all.
-/

namespace TensorCache

open Codec EStateM Process TensorCache.Runtime

section Sections

variable {s s' : Runtime} {env : Env} {oid : ObjectId} {tier : Tier} {r : Registration}

/-! ### Critical sections and whole calls -/

namespace Runtime.Ledger

lemma ignoring_enforce (h : Ledger s) (env : Env) :
    EStateM.ignoring (enforceCapacity env) s = .ok ⟨⟩ s := by
  rw [EStateM.ignoring, enforceCapacity_of_le h.fits]
  rfl

/-- Enforcing the capacity does nothing after a restore. -/
lemma restore_eq (h : Ledger s) (env : Env) (oid : ObjectId) (tier : Tier) :
    Runtime.restore env oid tier s = restoreLocked env oid tier s := by
  unfold Runtime.restore restoreLocked
  rw [get_bind_apply, get_bind_apply]
  cases s.entryQuarantined oid with
  | error e => rfl
  | ok quarantined =>
    cases quarantined with
    | true => rfl
    | false =>
      cases s.materializePayload oid with
      | error e => rfl
      | ok bytes =>
        cases s.entryHasTier oid tier with
        | error e => rfl
        | ok resident =>
          simp only [ofExcept_ok_bind, Bool.false_eq_true, if_false]
          cases resident with
          | true =>
            simp only [if_true]
            rw [bind_of_ok (h.ignoring_enforce env)]
          | false =>
            simp only [Bool.false_eq_true, if_false]
            have hadd := h.addPlacement env oid tier bytes
            cases hrun : Runtime.addPlacement env oid tier bytes s with
            | error e s' => rw [bind_of_error hrun, bind_of_error hrun]
            | ok u s' =>
              replace hadd : Ledger s' := by
                rw [hrun] at hadd
                exact hadd
              rw [bind_of_ok hrun, bind_of_ok hrun, bind_of_ok (hadd.ignoring_enforce env)]

/-- Nor does it after a promotion. -/
lemma promote_eq (h : Ledger s) (env : Env) (oid : ObjectId) (tier : Tier) :
    (∃ added s', promoteLocked env oid tier s = .ok added s' ∧
        Runtime.promote env oid tier s = .ok ⟨⟩ s') ∨
      ∃ e s', promoteLocked env oid tier s = .error e s' ∧
        Runtime.promote env oid tier s = .error e s' := by
  unfold Runtime.promote promoteLocked
  rw [get_bind_apply, get_bind_apply]
  cases s.entryHasTier oid tier with
  | error e => exact .inr ⟨e, s, rfl, rfl⟩
  | ok resident =>
    cases resident with
    | true => exact .inl ⟨false, s, rfl, rfl⟩
    | false =>
      cases s.entryQuarantined oid with
      | error e => exact .inr ⟨e, s, rfl, rfl⟩
      | ok quarantined =>
        cases quarantined with
        | true => exact .inr ⟨_, s, rfl, rfl⟩
        | false =>
          cases s.materializePayload oid with
          | error e => exact .inr ⟨e, s, rfl, rfl⟩
          | ok bytes =>
            simp only [ofExcept_ok_bind, Bool.false_eq_true, if_false]
            have hadd := h.addPlacement env oid tier bytes
            cases hrun : Runtime.addPlacement env oid tier bytes s with
            | error e s' => exact .inr ⟨e, s', bind_of_error hrun, bind_of_error hrun⟩
            | ok u s' =>
              replace hadd : Ledger s' := by
                rw [hrun] at hadd
                exact hadd
              refine .inl ⟨true, s', bind_of_ok hrun, ?_⟩
              rw [bind_of_ok hrun]
              exact hadd.ignoring_enforce env

/-- A new tensor is taken in if its new bytes fit. -/
lemma admitEntry (h : Ledger s) {n : ℕ} (hn : n ≤ s.accounting.free .host) (env : Env)
    (r : Registration) (byteLen numel : UInt64) (blocks : List BlockRef) :
    ∃ s', Runtime.admitEntry env r byteLen numel blocks n s = .ok ⟨⟩ s' ∧ Ledger s' := by
  obtain ⟨acquired, host, hrun, hledger⟩ := h.takeIn hn r.payload blocks
  refine ⟨insertEntry r.address.objectId.toHex (newEntry env r byteLen numel blocks acquired)
    (s.setHostTier host), ?_, hledger.budget, hledger.reserved⟩
  change EStateM.bind _ _ s = _
  simp only [EStateM.bind, hrun]
  rfl

/-- The first section of a registration: it fails as the whole call does, or it takes effect as
the whole call does, or there is no room and nothing has changed. -/
lemma admitNow_cases (h : Ledger s) (env : Env) (r : Registration) :
    (∃ e, admitNow env r s = .error e s ∧ register env r s = .error e s) ∨
      (∃ s', admitNow env r s = .ok none s' ∧ register env r s = .ok r.address.objectId s' ∧
        Ledger s') ∨
      ∃ checked : Checked, admitNow env r s = .ok (some checked) s ∧
        s.registerCheck r = .ok (checked.byteLen, checked.numel, checked.blocks) ∧
        s.accounting.free .host < newBytes s.host.contains checked.blocks := by
  unfold admitNow register
  rw [get_bind_apply, get_bind_apply]
  cases hcheck : s.registerCheck r with
  | error e => exact .inl ⟨e, rfl, rfl⟩
  | ok checked =>
    obtain ⟨byteLen, numel, blocks⟩ := checked
    rw [ofExcept_ok_bind, ofExcept_ok_bind]
    dsimp only
    by_cases hfull : newBytes s.host.contains blocks > s.accounting.free .host
    · right
      right
      rw [if_pos hfull]
      exact ⟨⟨byteLen, numel, blocks, _⟩, rfl, rfl, hfull⟩
    · right
      left
      have hfits := not_lt.mp hfull
      obtain ⟨s', htaken, hledger⟩ := h.admitEntry hfits env r byteLen numel blocks
      have hroom : makeRoom env (newBytes s.host.contains blocks) s = .ok ⟨⟩ s := by
        unfold makeRoom
        rw [get_bind_apply, if_neg hfull]
        rfl
      refine ⟨s', ?_, ?_, hledger⟩
      · rw [if_neg hfull, bind_of_ok htaken]
        rfl
      · rw [bind_of_ok hroom, bind_of_ok htaken, bind_of_ok (enforceCapacity_of_le hledger.fits)]
        rfl

lemma call_state (h : Ledger s) (env : Env) (c : Call) : Ledger (call env c s).state :=
  (Triple.state (P := (· = s)) (Ledger.call_rule (X := fun _ => True) h (by constructor <;> simp))
    rfl).1

lemma evictToFree (h : Ledger s) (env : Env) (needed : ℕ) :
    Ledger (Runtime.evictToFree env needed s).state := by
  refine Keeps.state (I := Ledger) ?_ h
  refine Keeps.get_bind fun _ => Keeps.ite Keeps.pure ?_
  exact stripWhile_keeps fun _ _ s oid t _ _ hs => hs.removePlacement env oid t

lemma admitAfter (h : Ledger s) (env : Env) (r : Registration) (checked : Checked) :
    (∃ e, Runtime.admitAfter env r checked s = .error e s) ∨
      checked.newHost ≤ s.accounting.free .host ∧
        ∃ s', Runtime.admitAfter env r checked s = .ok ⟨⟩ s' ∧ Ledger s' := by
  unfold Runtime.admitAfter
  rw [get_bind_apply]
  by_cases hfull : checked.newHost > s.accounting.free .host
  · rw [if_pos hfull]
    exact .inl ⟨_, rfl⟩
  · rw [if_neg hfull]
    have hfits := not_lt.mp hfull
    obtain ⟨s', htaken, hledger⟩ := h.admitEntry hfits env r checked.byteLen checked.numel
      checked.blocks
    exact .inr ⟨hfits, s', htaken, hledger⟩

end Runtime.Ledger

/-! ### What takes effect -/

/-- What an effect of a thread does to the runtime. -/
def Effect.perform (t : Thread) : Effect → Runtime → Runtime
  | call env, s => s.exec ⟨env, t.call⟩
  | looked _, s | short, s => s.beginCall
  | used env oid, s => updateEntry oid (recordUse env) s
  | room env needed, s => (evictToFree env needed s).state
  | admitted env r checked, s => (Runtime.admitAfter env r checked s).state

/-- The runtime after everything in a log has taken effect. -/
def replay (s₀ : Runtime) : List (Thread × Effect) → Runtime
  | [] => s₀
  | (t, eff) :: log => eff.perform t (replay s₀ log)

/-- The section is one of the call. -/
def Critical.Of (c : Call) : Critical → Prop
  | register r | admitAfter r _ => c = .register r
  | find address compat => c = .lookup address compat
  | restore oid tier => c = .restore oid tier
  | promote oid tier => c = .promote oid tier ∨ c = .replicate oid tier
  | whole c' => c = c'
  | evictToFree _ | enforceCapacity | recordUse _ => True

lemma Runtime.Ledger.beginCall (h : Ledger s) : Ledger s.beginCall := ⟨h.budget, h.reserved⟩

/-- A lookup reads the entry, and then records the use. -/
lemma find_cases (env : Env) (address : Address) (compat : CompatKey) (s : Runtime) :
    (∃ found, Runtime.find address compat s = .ok found s ∧
      Runtime.lookup env address compat s = .ok (Job.lookupResult s.config.cost address found)
        (updateEntry address.objectId (recordUse env) s)) ∨
      ∃ e, Runtime.find address compat s = .error e s ∧
        Runtime.lookup env address compat s = .error e s := by
  unfold Runtime.find Runtime.lookup
  rw [get_bind_apply, get_bind_apply]
  cases s.entries.lookup address.objectId.toHex with
  | none => exact .inr ⟨_, rfl, rfl⟩
  | some e =>
    dsimp only
    by_cases hne : e.compatId ≠ compat.compatId
    · rw [if_pos hne, if_pos hne]
      exact .inr ⟨_, rfl, rfl⟩
    · rw [if_neg hne, if_neg hne]
      exact .inl ⟨_, rfl, rfl⟩

/-- A section does what its effect says. -/
lemma Critical.run_spec (h : Ledger s) {t : Thread} {q : Critical} (hof : q.Of t.call) (env : Env) :
    Ledger (q.run env (q.enter s)).state ∧ (q.run env (q.enter s)).state =
      (q.effect env (outcome (q.run env (q.enter s)))).elim s fun eff => eff.perform t s := by
  have hwhole : ∀ {q : Critical}, (q.run env (q.enter s)).state = s.exec ⟨env, t.call⟩ →
      Ledger (q.run env (q.enter s)).state := by
    intro q hstate
    rw [hstate]
    exact h.beginCall.call_state env t.call
  cases q with
  | register r =>
    change t.call = _ at hof
    have hrun : (register r).run env ((register r).enter s) = admitNow env r s.beginCall := rfl
    rw [hrun]
    rcases h.beginCall.admitNow_cases env r with
      ⟨e, htaken, hreg⟩ | ⟨s', htaken, hreg, hledger⟩ | ⟨checked, htaken, -⟩
    · have hcall : call env (.register r) s.beginCall = .error e s.beginCall := bind_of_error hreg
      rw [htaken]
      refine ⟨h.beginCall, ?_⟩
      change s.beginCall = s.exec ⟨env, t.call⟩
      rw [Runtime.exec, hof, hcall]
      rfl
    · have hcall : call env (.register r) s.beginCall = .ok (.registered r.address.objectId) s' :=
        bind_of_ok hreg
      rw [htaken]
      refine ⟨hledger, ?_⟩
      change s' = s.exec ⟨env, t.call⟩
      rw [Runtime.exec, hof, hcall]
      rfl
    · rw [htaken]
      exact ⟨h.beginCall, rfl⟩
  | evictToFree needed => exact ⟨h.evictToFree env needed, rfl⟩
  | admitAfter r checked =>
    refine ⟨?_, rfl⟩
    change Ledger (Runtime.admitAfter env r checked s).state
    rcases h.admitAfter env r checked with ⟨e, hrun⟩ | ⟨-, s', hrun, hledger⟩
    · rw [hrun]
      exact h
    · rw [hrun]
      exact hledger
  | enforceCapacity =>
    have hrun : Runtime.enforceCapacity env s = .ok ⟨⟩ s := enforceCapacity_of_le h.fits
    change Ledger (Runtime.enforceCapacity env s).state ∧ (Runtime.enforceCapacity env s).state = s
    rw [hrun]
    exact ⟨h, rfl⟩
  | find address compat =>
    change Ledger (Runtime.find address compat s.beginCall).state ∧
      (Runtime.find address compat s.beginCall).state = s.beginCall
    rcases find_cases env address compat s.beginCall with ⟨found, hrun, -⟩ | ⟨e, hrun, -⟩
    · rw [hrun]
      exact ⟨h.beginCall, rfl⟩
    · rw [hrun]
      exact ⟨h.beginCall, rfl⟩
  | recordUse oid => exact ⟨⟨h.budget, h.reserved⟩, rfl⟩
  | restore oid tier =>
    change t.call = _ at hof
    have hstate : (restoreLocked env oid tier s.beginCall).state = s.exec ⟨env, t.call⟩ := by
      rw [← h.beginCall.restore_eq, Runtime.exec, hof]
      change _ = ((Runtime.restore env oid tier >>= fun bytes =>
        pure (Reply.restored bytes)) s.beginCall).state
      rw [state_bind_pure]
    exact ⟨hwhole hstate, hstate⟩
  | promote oid tier =>
    have hstate : (promoteLocked env oid tier s.beginCall).state = s.exec ⟨env, t.call⟩ := by
      have hcall : (promoteLocked env oid tier s.beginCall).state =
          (call env (.promote oid tier) s.beginCall).state := by
        change _ = ((Runtime.promote env oid tier >>= fun _ => pure Reply.done) s.beginCall).state
        rw [state_bind_pure]
        rcases h.beginCall.promote_eq env oid tier with ⟨added, s', hrun, hcall⟩ | ⟨e, s', hrun, hcall⟩
        · rw [hrun, hcall]
          rfl
        · rw [hrun, hcall]
          rfl
      rcases hof with hof | hof
      · rw [hcall, Runtime.exec, hof]
      · rw [hcall, Runtime.exec, hof]
        rfl
    exact ⟨hwhole hstate, hstate⟩
  | whole c =>
    change t.call = c at hof
    have hstate : (call env c s.beginCall).state = s.exec ⟨env, t.call⟩ := by
      rw [Runtime.exec, hof]
    exact ⟨hwhole hstate, hstate⟩

end Sections

/-! ### The invariant -/

/-- A state of the threads and what has happened so far. -/
abbrev Turn := Scene Thread Shared Critical.Resp (Except Error Reply)

/-- A registration has passed its checks at some place of the log, but its new bytes did not fit. -/
def HadNoRoom (s₀ : Runtime) (log : List (Thread × Effect)) (t : Thread) (r : Registration) : Prop :=
  ∃ earlier byteLen numel blocks, (t, .short) :: earlier <:+ log ∧
    (replay s₀ earlier).beginCall.registerCheck r = .ok (byteLen, numel, blocks) ∧
    (replay s₀ earlier).accounting.free .host < newBytes (replay s₀ earlier).host.contains blocks

/-- Where the result of a call comes from: the call took effect as a whole at some place of the
log, or it is a registration that had to make room. -/
inductive Explained (s₀ : Runtime) (log : List (Thread × Effect)) (t : Thread) :
    Except Error Reply → Prop
  | whole {env : Env} {earlier : List (Thread × Effect)} (h : (t, .call env) :: earlier <:+ log) :
      Explained s₀ log t (outcome (call env t.call (replay s₀ earlier).beginCall))
  | looked {env : Env} {address : Address} {compat : CompatKey} {earlier : List (Thread × Effect)}
      (hcall : t.call = .lookup address compat) (h : (t, .looked env) :: earlier <:+ log) :
      Explained s₀ log t (outcome (call env t.call (replay s₀ earlier).beginCall))
  | refused {r : Registration} (hcall : t.call = .register r) (hroom : HadNoRoom s₀ log t r)
      (e : Error) : Explained s₀ log t (.error e)
  | admitted {env : Env} {r : Registration} {checked : Checked} {earlier : List (Thread × Effect)}
      (hcall : t.call = .register r) (hroom : HadNoRoom s₀ log t r)
      (h : (t, .admitted env r checked) :: earlier <:+ log)
      (hfits : checked.newHost ≤ (replay s₀ earlier).accounting.free .host) :
      Explained s₀ log t (.ok (.registered r.address.objectId))

/-- A registration that is admitted late has passed its checks earlier. -/
def CheckedBefore (s₀ : Runtime) (r : Registration) (checked : Checked)
    (log : List (Thread × Effect)) : Prop :=
  ∃ before, before <:+ log ∧ (replay s₀ before).registerCheck r
    = .ok (checked.byteLen, checked.numel, checked.blocks)

structure Replayed (s₀ : Runtime) (T : Call → Prop) (c : Turn) : Prop where
  ledger : Ledger c.now.tc
  replay : c.now.tc = replay s₀ c.now.log
  calls : ∀ p ∈ c.now.log, T p.1.call
  checked : ∀ t env r checked earlier, (t, .admitted env r checked) :: earlier <:+ c.now.log →
    t.call = .register r ∧ CheckedBefore s₀ r checked earlier
  finished : ∀ t a, .finished t a ∈ c.past → Explained s₀ c.now.log t a

/-- The log only grows. -/
def Longer (c c' : Turn) : Prop := c.now.log <:+ c'.now.log

variable {s₀ : Runtime} {cost : CostModel} {T : Call → Prop} {t : Thread} {c : Turn}
  {log log' : List (Thread × Effect)}

lemma HadNoRoom.later {r : Registration} (h : HadNoRoom s₀ log t r) (hlog : log <:+ log') :
    HadNoRoom s₀ log' t r := by
  obtain ⟨earlier, byteLen, numel, blocks, hshort, hroom⟩ := h
  exact ⟨earlier, byteLen, numel, blocks, hshort.trans hlog, hroom⟩

lemma Explained.later {a : Except Error Reply} (h : Explained s₀ log t a) (hlog : log <:+ log') :
    Explained s₀ log' t a := by
  cases h with
  | whole h => exact .whole (h.trans hlog)
  | looked hcall h => exact .looked hcall (h.trans hlog)
  | refused hcall hroom e => exact .refused hcall (hroom.later hlog) e
  | admitted hcall hroom h hfits => exact .admitted hcall (hroom.later hlog) (h.trans hlog) hfits

lemma CheckedBefore.later {r : Registration} {checked : Checked}
    (h : CheckedBefore s₀ r checked log) (hlog : log <:+ log') :
    CheckedBefore s₀ r checked log' := by
  obtain ⟨before, hbefore, hcheck⟩ := h
  exact ⟨before, hbefore.trans hlog, hcheck⟩

/-- The weakest precondition of a thread's program. -/
abbrev Guarantees (s₀ : Runtime) (cost : CostModel) (T : Call → Prop) (t : Thread) {α : Type}
    (p : Program Critical.Resp α) (Q : α → Turn → Prop) : Turn → Prop :=
  Wp (Shared.world cost T) (Replayed s₀ T) Longer t p Q

/-- A thread gets the lock for one of its sections. -/
lemma guarantees_ask {α : Type} {q : Critical} {k : q.Resp → Program Critical.Resp α}
    {Q : α → Turn → Prop} (hT : T t.call) (hof : q.Of t.call)
    (hchecked : ∀ r checked, q = .admitAfter r checked → CheckedBefore s₀ r checked c.now.log)
    (h : ∀ s log past env, c.now.log <:+ log → Ledger s → s = replay s₀ log →
      Guarantees s₀ cost T t (k (outcome (q.run env (q.enter s)))) Q
        ⟨⟨(q.run env (q.enter s)).state,
          ((q.effect env (outcome (q.run env (q.enter s)))).map (t, ·)).toList ++ log⟩, past⟩) :
    Guarantees s₀ cost T t (.ask q k) Q c := by
  rintro ⟨⟨s, log⟩, past⟩ hlog hI x s' ⟨env, rfl, rfl⟩
  obtain ⟨hledger, hstate⟩ := Critical.run_spec hI.ledger hof env
  have hsuffix : log <:+ ((q.effect env (outcome (q.run env (q.enter s)))).map (t, ·)).toList ++ log :=
    List.suffix_append _ _
  refine ⟨⟨hledger, ?_, ?_, ?_, ?_⟩, hsuffix, h s log _ env hlog hI.ledger hI.replay⟩
  · change (q.run env (q.enter s)).state = _
    rw [hstate]
    cases q.effect env (outcome (q.run env (q.enter s))) with
    | none => exact hI.replay
    | some eff => exact congrArg (eff.perform t) hI.replay
  · intro p hp
    rcases List.mem_append.mp hp with hp | hp
    · obtain ⟨eff, -, rfl⟩ := Option.map_eq_some_iff.mp (Option.mem_toList.mp hp)
      exact hT
    · exact hI.calls p hp
  · intro t' env' r checked earlier hearlier
    cases heff : q.effect env (outcome (q.run env (q.enter s))) with
    | none =>
      rw [heff] at hearlier
      exact hI.checked _ _ _ _ _ hearlier
    | some eff =>
      rw [heff] at hearlier
      rcases List.suffix_cons_iff.mp hearlier with heq | hearlier
      · cases heq
        cases q with
        | admitAfter r' checked' =>
          cases heff
          exact ⟨hof, (hchecked _ _ rfl).later hlog⟩
        | register r' =>
          generalize outcome ((Critical.register r').run env ((Critical.register r').enter s)) = x at heff
          rcases x with e | _ | checked' <;> cases heff
        | _ => cases heff
      · exact hI.checked _ _ _ _ _ hearlier
  · intro t' a hfin
    rcases List.mem_cons.mp hfin with heq | hfin
    · cases heq
    · exact (hI.finished t' a hfin).later hsuffix


/-- Enforcing the capacity returns and changes nothing. -/
lemma guarantees_enforce {α : Type} {k : Except Error PUnit → Program Critical.Resp α}
    {Q : α → Turn → Prop} (hT : T t.call)
    (h : ∀ s log past, c.now.log <:+ log → Guarantees s₀ cost T t (k (.ok ⟨⟩)) Q ⟨⟨s, log⟩, past⟩) :
    Guarantees s₀ cost T t (.ask .enforceCapacity k) Q c := by
  refine guarantees_ask hT trivial (by simp) fun s log past env hlog hledger _ => ?_
  have hrun : Critical.enforceCapacity.run env (Critical.enforceCapacity.enter s) = .ok ⟨⟩ s :=
    enforceCapacity_of_le hledger.fits
  rw [hrun]
  exact h _ _ _ hlog

section Calls

variable {env : Env} {r : Registration}

/-- The result of a call whose effect is the newest one. -/
lemma Explained.of_call {x : Except Error Reply}
    (h : outcome (call env t.call (replay s₀ log).beginCall) = x) :
    Explained s₀ ((t, .call env) :: log) t x := by
  rw [← h]
  exact .whole List.suffix_rfl

lemma guarantees_register (hT : T t.call) (hcall : t.call = .register r) :
    Guarantees s₀ cost T t (Job.call cost (.register r))
      (fun x c => Explained s₀ c.now.log t x) c := by
  refine guarantees_ask (q := .register r) hT hcall (by simp)
    fun s log past env hlog hledger hreplay => ?_
  have hrun : (Critical.register r).run env ((Critical.register r).enter s) = admitNow env r s.beginCall :=
    rfl
  rw [hrun]
  rcases hledger.beginCall.admitNow_cases env r with
    ⟨e, htaken, hreg⟩ | ⟨s', htaken, hreg, -⟩ | ⟨checked, htaken, hcheck, hfull⟩
  · have herror : call env (.register r) s.beginCall = .error e s.beginCall := bind_of_error hreg
    have hresult : outcome (call env t.call (replay s₀ log).beginCall) = .error e := by
      rw [hcall, ← hreplay, herror]
      rfl
    rw [htaken]
    exact Explained.of_call hresult
  · have hok : call env (.register r) s.beginCall = .ok (.registered r.address.objectId) s' :=
      bind_of_ok hreg
    have hresult : outcome (call env t.call (replay s₀ log).beginCall)
        = .ok (.registered r.address.objectId) := by
      rw [hcall, ← hreplay, hok]
      rfl
    rw [htaken]
    refine guarantees_enforce hT fun _ log' _ hlog' => ?_
    exact (Explained.of_call hresult).later hlog'
  · rw [htaken]
    have hroom : HadNoRoom s₀ ((t, .short) :: log) t r := by
      rw [hreplay] at hcheck hfull
      exact ⟨log, _, _, _, List.suffix_rfl, hcheck, hfull⟩
    -- there is no room: the lock is given up
    refine guarantees_ask (q := .evictToFree checked.newHost) hT trivial (by simp)
      fun s₁ log₁ past₁ env₁ hlog₁ _ _ => ?_
    change (t, .short) :: log <:+ log₁ at hlog₁
    cases outcome ((Critical.evictToFree checked.newHost).run env₁ _) with
    | error e => exact .refused hcall (hroom.later (hlog₁.trans (List.suffix_cons _ _))) e
    | ok u =>
      refine guarantees_ask (q := .admitAfter r checked) hT hcall ?_
        fun s₂ log₂ past₂ env₂ hlog₂ hledger₂ hreplay₂ => ?_
      · rintro _ _ heq
        cases heq
        refine ⟨log, (((List.suffix_cons _ _).trans hlog₁).trans (List.suffix_cons _ _)), ?_⟩
        rw [← hreplay]
        exact hcheck
      · have hroom₂ : HadNoRoom s₀ ((t, .admitted env₂ r checked) :: log₂) t r :=
          hroom.later ((hlog₁.trans (List.suffix_cons _ _)).trans
            (hlog₂.trans (List.suffix_cons _ _)))
        have hrun₂ : (Critical.admitAfter r checked).run env₂
            ((Critical.admitAfter r checked).enter s₂) = Runtime.admitAfter env₂ r checked s₂ := rfl
        rw [hrun₂]
        rcases hledger₂.admitAfter env₂ r checked with ⟨e, htaken₂⟩ | ⟨hfits, s', htaken₂, -⟩
        · rw [htaken₂]
          exact .refused hcall hroom₂ e
        · rw [htaken₂]
          refine guarantees_enforce hT fun _ log₃ _ hlog₃ => ?_
          refine Explained.later (Explained.admitted hcall hroom₂ List.suffix_rfl ?_) hlog₃
          rw [← hreplay₂]
          exact hfits

lemma guarantees_lookup {address : Address} {compat : CompatKey} (hT : T t.call)
    (hcall : t.call = .lookup address compat) (hcost : ∀ log, (replay s₀ log).config.cost = cost) :
    Guarantees s₀ cost T t (Job.call cost (.lookup address compat))
      (fun x c => Explained s₀ c.now.log t x) c := by
  refine guarantees_ask (q := .find address compat) hT hcall (by simp)
    fun s log past env hlog hledger hreplay => ?_
  have hrun : (Critical.find address compat).run env ((Critical.find address compat).enter s)
      = Runtime.find address compat s.beginCall := rfl
  have hlooked : ∀ {x}, outcome (call env t.call (replay s₀ log).beginCall) = x →
      Explained s₀ ((t, .looked env) :: log) t x := by
    rintro x rfl
    exact .looked hcall List.suffix_rfl
  rw [hrun]
  rcases find_cases env address compat s.beginCall with ⟨found, hfind, hlookup⟩ | ⟨e, hfind, hlookup⟩
  · have hresult : outcome (call env t.call (replay s₀ log).beginCall)
        = .ok (.found (Job.lookupResult cost address found)) := by
      have hok : call env (.lookup address compat) s.beginCall = _ := bind_of_ok hlookup
      rw [hcall, ← hreplay, hok, ← hcost log, ← hreplay]
      rfl
    rw [hfind]
    refine guarantees_ask (q := .recordUse address.objectId) hT trivial (by simp)
      fun s₁ log₁ past₁ env₁ hlog₁ _ _ => ?_
    exact (hlooked hresult).later (hlog₁.trans (List.suffix_cons _ _))
  · have hresult : outcome (call env t.call (replay s₀ log).beginCall) = .error e := by
      have herror : call env (.lookup address compat) s.beginCall = _ := bind_of_error hlookup
      rw [hcall, ← hreplay, herror]
      rfl
    rw [hfind]
    exact hlooked hresult

lemma guarantees_restore {oid : ObjectId} {tier : Tier} (hT : T t.call)
    (hcall : t.call = .restore oid tier) :
    Guarantees s₀ cost T t (Job.call cost (.restore oid tier))
      (fun x c => Explained s₀ c.now.log t x) c := by
  refine guarantees_ask (q := .restore oid tier) hT hcall (by simp)
    fun s log past env hlog hledger hreplay => ?_
  have hrun : (Critical.restore oid tier).run env ((Critical.restore oid tier).enter s)
      = Runtime.restore env oid tier s.beginCall := (hledger.beginCall.restore_eq env oid tier).symm
  rw [hrun]
  cases hrestore : Runtime.restore env oid tier s.beginCall with
  | error e s' =>
    have herror : call env (.restore oid tier) s.beginCall = _ := bind_of_error hrestore
    have hresult : outcome (call env t.call (replay s₀ log).beginCall) = .error e := by
      rw [hcall, ← hreplay, herror]
      rfl
    exact Explained.of_call hresult
  | ok bytes s' =>
    have hok : call env (.restore oid tier) s.beginCall = _ := bind_of_ok hrestore
    have hresult : outcome (call env t.call (replay s₀ log).beginCall) = .ok (.restored bytes) := by
      rw [hcall, ← hreplay, hok]
      rfl
    refine guarantees_enforce hT fun _ log' _ hlog' => ?_
    exact (Explained.of_call hresult).later hlog'

lemma guarantees_promote {oid : ObjectId} {tier : Tier} (hT : T t.call)
    (hcall : t.call = .promote oid tier ∨ t.call = .replicate oid tier) :
    Guarantees s₀ cost T t (Job.call cost (.promote oid tier))
      (fun x c => Explained s₀ c.now.log t x) c := by
  refine guarantees_ask (q := .promote oid tier) hT hcall (by simp)
    fun s log past env hlog hledger hreplay => ?_
  have hrun : (Critical.promote oid tier).run env ((Critical.promote oid tier).enter s)
      = promoteLocked env oid tier s.beginCall := rfl
  have hsame : call env t.call s.beginCall = call env (.promote oid tier) s.beginCall := by
    rcases hcall with hcall | hcall <;> rw [hcall]
    rfl
  rw [hrun]
  rcases hledger.beginCall.promote_eq env oid tier with
    ⟨added, s', hlocked, hpromote⟩ | ⟨e, s', hlocked, hpromote⟩
  · have hok : call env (.promote oid tier) s.beginCall = _ := bind_of_ok hpromote
    have hresult : outcome (call env t.call (replay s₀ log).beginCall) = .ok .done := by
      rw [← hreplay, hsame, hok]
      rfl
    rw [hlocked]
    cases added with
    | false => exact Explained.of_call hresult
    | true =>
      refine guarantees_enforce hT fun _ log' _ hlog' => ?_
      exact (Explained.of_call hresult).later hlog'
  · have herror : call env (.promote oid tier) s.beginCall = _ := bind_of_error hpromote
    have hresult : outcome (call env t.call (replay s₀ log).beginCall) = .error e := by
      rw [← hreplay, hsame, herror]
      rfl
    rw [hlocked]
    exact Explained.of_call hresult

/-- A call that holds the lock all the way. -/
lemma guarantees_whole {c' : Call} (hT : T t.call) (hcall : t.call = c') :
    Guarantees s₀ cost T t (Job.ask (.whole c')) (fun x c => Explained s₀ c.now.log t x) c := by
  refine guarantees_ask (q := .whole c') hT hcall (by simp)
    fun s log past env hlog hledger hreplay => ?_
  have hresult : outcome (call env t.call (replay s₀ log).beginCall) =
      outcome (call env c' s.beginCall) := by
    rw [hcall, ← hreplay]
  exact Explained.of_call hresult

/-- Whatever a thread calls, its result is explained by the log. -/
lemma guarantees_call (hT : T t.call) (hcost : ∀ log, (replay s₀ log).config.cost = cost) :
    Guarantees s₀ cost T t (Job.call cost t.call) (fun x c => Explained s₀ c.now.log t x) c := by
  cases hcall : t.call with
  | register r => exact guarantees_register hT hcall
  | lookup address compat => exact guarantees_lookup hT hcall hcost
  | restore oid tier => exact guarantees_restore hT hcall
  | promote oid tier => exact guarantees_promote hT (.inl hcall)
  | replicate oid tier => exact guarantees_promote hT (.inr hcall)
  | demote | persist | evict | delete | verify => exact guarantees_whole hT hcall

end Calls

/-! ### Runs of threads -/

lemma config_exec (s : Runtime) (ev : Runtime.Event) : (s.exec ev).config = s.config := by
  have hstable : Stable fun s' => s'.config = s.config :=
    ⟨fun _ _ _ hs => hs, fun _ _ hs => hs, fun _ _ hs => hs, fun _ _ hs => hs⟩
  refine hstable.guarded.exec rfl (fun _ _ _ _ hs => hs) (fun oid s' hs => ?_)
    fun _ _ _ _ => .inl trivial
  unfold removeEntry
  split <;> exact hs

lemma config_replay (s₀ : Runtime) (log : List (Thread × Effect)) :
    (replay s₀ log).config = s₀.config := by
  have hstable : Stable fun s' : Runtime => s'.config = s₀.config :=
    ⟨fun _ _ _ hs => hs, fun _ _ hs => hs, fun _ _ hs => hs, fun _ _ hs => hs⟩
  induction log with
  | nil => rfl
  | cons p log ih =>
    obtain ⟨t, eff⟩ := p
    cases eff with
    | call env => exact (config_exec _ _).trans ih
    | looked | short | used => exact ih
    | room env needed =>
      refine Keeps.state (I := fun s' : Runtime => s'.config = s₀.config) ?_ ih
      exact Keeps.get_bind fun _ => Keeps.ite Keeps.pure (hstable.guarded.stripWhile _ _)
    | admitted env r checked =>
      refine Keeps.state (I := fun s' : Runtime => s'.config = s₀.config) ?_ ih
      refine Keeps.get_bind fun _ => Keeps.ite Keeps.throw ?_
      exact Keeps.bind (Keeps.zoom hstable.host) fun _ => Keeps.modify fun _ hs => hs

lemma system_threads (s₀ : Runtime) (T : Call → Prop) :
    System (Shared.world s₀.config.cost T) (Replayed s₀ T) Longer where
  refl _ := List.suffix_rfl
  trans _ _ _ h h' := List.IsSuffix.trans h h'
  arrive c t p s' hI harrive := by
    obtain ⟨hT, rfl, rfl⟩ := harrive
    refine ⟨hI, List.suffix_rfl, Wp.mono (fun x c₀ hx => ?_)
      (guarantees_call hT fun log => congrArg _ (config_replay s₀ log))⟩
    rintro c₁ hlog hI₁ s' rfl
    refine ⟨⟨hI₁.ledger, hI₁.replay, hI₁.calls, hI₁.checked, fun t' a hfin => ?_⟩,
      List.suffix_rfl⟩
    rcases List.mem_cons.mp hfin with heq | hfin
    · cases heq
      exact hx.later hlog
    · exact hI₁.finished t' a hfin
  move _ _ _ hmove := hmove.elim

lemma good_start_threads {s₀ : Runtime} (h : Ledger s₀) (T : Call → Prop) :
    Good (Shared.world s₀.config.cost T) (Replayed s₀ T) Longer (Shared.start s₀) := by
  refine ⟨⟨h, rfl, ?_, ?_, ?_⟩, ?_⟩ <;> simp [Shared.start]

end TensorCache
