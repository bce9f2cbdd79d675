import TensorCache.Fidelity
import TensorCache.Runtime.Interleaving

/-!
# Threads around one runtime

However many threads call a runtime, their calls take effect one after the other, in an order that
agrees with the time of the calls. The ledger of the host tier stays in order and all bytes are
those of a registration. Registrations that have to make room are the exception: another
registration of the same object may come between.
-/

namespace TensorCache

open Codec EStateM Process TensorCache.Runtime

variable {s₀ : Runtime} {cost : CostModel} {T : Call → Prop} {t : Thread} {c : Turn}
  {log log' : List (Thread × Effect)}

/-! ### Threads that meet -/

section Meeting

/-- What a thread does that nobody comes between. -/
def alone (t : Thread) : Program Critical.Resp (Except Error Reply) → Shared →
    Except Error Reply × Shared
  | .ret a, s => (a, s)
  | .ask q k, s =>
    alone t (k (outcome (q.run {} (q.enter s.tc)))) ⟨(q.run {} (q.enter s.tc)).state,
      ((q.effect {} (outcome (q.run {} (q.enter s.tc)))).map (t, ·)).toList ++ s.log⟩

lemma runs_alone (cost : CostModel) (T : Call → Prop)
    (l : List (Thread × Program Critical.Resp (Except Error Reply))) (t : Thread)
    (p : Program Critical.Resp (Except Error Reply)) (s : Shared) :
    p.Runs (Answered (Shared.world cost T) l t) s (alone t p s).1 (alone t p s).2 := by
  induction p generalizing s with
  | ret a => exact .ret a s
  | ask q k ih => exact .ask (Answered.of_does ⟨{}, rfl, rfl⟩) (ih _ _)

/-- A thread arrives and finishes its call. -/
lemma steps_alone (cost : CostModel) (hT : T t.call) (s : Shared)
    (past : List (Process.Event Thread Critical.Resp (Except Error Reply)))
    (l : List (Thread × Program Critical.Resp (Except Error Reply))) :
    ∃ past', past <:+ past' ∧ Steps (Shared.world cost T) ⟨⟨s, past⟩, l⟩
      ⟨⟨(alone t (Job.call cost t.call) s).2,
        .finished t (alone t (Job.call cost t.call) s).1 :: past'⟩, l⟩ := by
  have harrive : (Shared.world cost T).arrives s t (Job.call cost t.call) s := ⟨hT, rfl, rfl⟩
  exact (runs_alone cost T l t (Job.call cost t.call) s).complete harrive rfl past

lemma exists_ok {x : Except Error Reply} (h : x.toOption.isSome) : ∃ reply, x = .ok reply := by
  cases x with
  | error e => cases h
  | ok reply => exact ⟨reply, rfl⟩

/-- A runtime with room for eight bytes, in blocks of eight bytes. -/
def meetingConfig : RuntimeConfig := { blockSize := 8, hostCapacity := 8 }

def meeting : Runtime := initial meetingConfig [] none

lemma meeting_new : Runtime.new {} meetingConfig [] ∅ 0 = .ok meeting := rfl

/-- A tensor that leaves room for one byte. -/
def bulky : Registration where
  address := ⟨.lit "bulky", .lit "", 0⟩
  compat := { dtype := .u8, shape := ⟨[7], by decide, by simp [maxDim]⟩ }
  payload := [3, 4, 5, 6, 7, 8, 9]
  payload_small := by simp
  compat_small := by decide

def registers (n : ℕ) (r : Registration) : Thread := ⟨n, .register r⟩

abbrev registering (r : Registration) : Program Critical.Resp (Except Error Reply) :=
  Job.call meetingConfig.cost (.register r)

/-- Threads that register. -/
def Registers (c : Call) : Prop := ∃ r, c = .register r

lemma not_registers_delete (oid : ObjectId) : ¬ Registers (.delete oid) := by
  rintro ⟨r, ⟨⟩⟩

def filled : Shared := (alone (registers 0 bulky) (registering bulky) ⟨meeting, []⟩).2

/-- What the first of two threads has found out when it gives the lock up. -/
def shortOfRoom : Checked := ⟨2, 2, refsFrom 0 [[1, 2]], 2⟩

def roomNeeded : Shared :=
  ⟨(admitNow {} (bytePair 0 1 2) filled.tc.beginCall).state,
    (registers 1 (bytePair 0 1 2), .short) :: filled.log⟩

def roomMade : Shared :=
  ⟨(evictToFree {} 2 roomNeeded.tc).state,
    (registers 1 (bytePair 0 1 2), .room {} 2) :: roomNeeded.log⟩

/-- What is left to do for the first thread when it has made room. -/
def admitted : Job ObjectId := do
  Job.ask (.admitAfter (bytePair 0 1 2) shortOfRoom)
  Job.ask .enforceCapacity
  pure (bytePair 0 1 2).address.objectId

abbrev admitting : Program Critical.Resp (Except Error Reply) :=
  (admitted >>= fun oid => pure (.registered oid) : Job Reply)

def evicting : Program Critical.Resp (Except Error Reply) :=
  ((Job.ask (.evictToFree 2) >>= fun _ => admitted) >>= fun oid => pure (.registered oid) : Job Reply)

lemma step_turn {p p' : Program Critical.Resp (Except Error Reply)} {q : Critical}
    {k : q.Resp → Program Critical.Resp (Except Error Reply)} {x : q.Resp} {s s' : Shared}
    {past : List (Process.Event Thread Critical.Resp (Except Error Reply))} (hp : p = .ask q k)
    (h : Shared.Does t q s x s') (hp' : k x = p') :
    Step (Shared.world cost T) ⟨⟨s, past⟩, [(t, p)]⟩ ⟨⟨s', .did t q x :: past⟩, [(t, p')]⟩ := by
  subst hp hp'
  exact .act [] [] h

/-- The second thread has come between. -/
def overtaken : Shared :=
  (alone (registers 2 (bytePair 0 1 2)) (registering (bytePair 0 1 2)) roomMade).2

def metTwice : Shared := (alone (registers 1 (bytePair 0 1 2)) admitting overtaken).2

/-- Two threads register the same tensor, and both succeed: the second comes between when the
first has made room. -/
lemma met_twice : ∃ past reply reply',
    Steps (Shared.world meetingConfig.cost Registers) (Shared.start meeting)
      ⟨⟨metTwice, past⟩, []⟩ ∧
    .finished (registers 1 (bytePair 0 1 2)) (.ok reply) ∈ past ∧
    .finished (registers 2 (bytePair 0 1 2)) (.ok reply') ∈ past := by
  have htaken : Shared.Does (registers 1 (bytePair 0 1 2)) (.register (bytePair 0 1 2)) filled
      (.ok (some shortOfRoom)) roomNeeded := by
    refine ⟨{}, ?_, rfl⟩
    decide +kernel
  have hroom : Shared.Does (registers 1 (bytePair 0 1 2)) (.evictToFree 2) roomNeeded (.ok ⟨⟩)
      roomMade := by
    refine ⟨{}, ?_, rfl⟩
    decide +kernel
  obtain ⟨reply', hsecond⟩ : ∃ reply, (alone (registers 2 (bytePair 0 1 2))
      (registering (bytePair 0 1 2)) roomMade).1 = .ok reply := exists_ok (by decide +kernel)
  obtain ⟨reply, hfirst⟩ : ∃ reply, (alone (registers 1 (bytePair 0 1 2)) admitting overtaken).1
      = .ok reply := exists_ok (by decide +kernel)
  obtain ⟨past₁, -, hfill⟩ := steps_alone (T := Registers) (t := registers 0 bulky)
    meetingConfig.cost ⟨bulky, rfl⟩ ⟨meeting, []⟩ [] []
  generalize hpast₁ : Event.finished (registers 0 bulky) _ :: past₁ = past₂ at hfill
  have harrive : Step (Shared.world meetingConfig.cost Registers) ⟨⟨filled, past₂⟩, []⟩
      ⟨⟨filled, past₂⟩, [(registers 1 (bytePair 0 1 2), registering (bytePair 0 1 2))]⟩ :=
    .arrive [] ⟨⟨_, rfl⟩, rfl, rfl⟩
  have hshort : Step (Shared.world meetingConfig.cost Registers)
      ⟨⟨filled, past₂⟩, [(registers 1 (bytePair 0 1 2), registering (bytePair 0 1 2))]⟩
      ⟨⟨roomNeeded, _⟩, [(registers 1 (bytePair 0 1 2), evicting)]⟩ := step_turn rfl htaken rfl
  generalize Event.did _ _ _ :: past₂ = past₂' at hshort
  have hevict : Step (Shared.world meetingConfig.cost Registers)
      ⟨⟨roomNeeded, past₂'⟩, [(registers 1 (bytePair 0 1 2), evicting)]⟩
      ⟨⟨roomMade, _⟩, [(registers 1 (bytePair 0 1 2), admitting)]⟩ := step_turn rfl hroom rfl
  obtain ⟨past₃, -, hbetween⟩ := steps_alone (T := Registers)
    (t := registers 2 (bytePair 0 1 2)) meetingConfig.cost ⟨_, rfl⟩ roomMade (.did _ _ _ :: past₂')
    [(registers 1 (bytePair 0 1 2), admitting)]
  obtain ⟨past₄, hsuffix, hend⟩ := (runs_alone meetingConfig.cost Registers []
    (registers 1 (bytePair 0 1 2)) admitting overtaken).steps (Event.finished _ _ :: past₃)
  rw [hfirst] at hend
  have hfinish : Step (Shared.world meetingConfig.cost Registers)
      ⟨⟨metTwice, past₄⟩, [(registers 1 (bytePair 0 1 2), .ret (.ok reply))]⟩
      ⟨⟨metTwice, .finished (registers 1 (bytePair 0 1 2)) (.ok reply) :: past₄⟩, []⟩ :=
    .finish [] [] rfl
  have hbefore := ((hfill.tail harrive).tail hshort).tail hevict
  refine ⟨_, reply, reply', (hbefore.trans hbetween).trans (hend.tail hfinish), ?_, ?_⟩
  · exact List.mem_cons_self
  · refine List.mem_cons_of_mem _ (hsuffix.subset ?_)
    change _ ∈ Event.finished _ (alone _ (registering (bytePair 0 1 2)) roomMade).1 :: _
    rw [hsecond]
    exact List.mem_cons_self

end Meeting

/-! ### One order of effects -/

/-- Calls that interleave take effect one after the other: in every configuration that any number of
threads reach, the runtime is what the log of effects makes of it, the log only grows, and every
result is that of the call at its place in the log, or that of a registration that had to make
room. -/
theorem interleaved_calls_replay {s₀ : Runtime} (h : Reachable s₀) {T : Call → Prop}
    {c c' : Config Thread Shared Critical.Resp (Except Error Reply)}
    (hrun : Steps (Shared.world s₀.config.cost T) (Shared.start s₀) c)
    (hlater : Steps (Shared.world s₀.config.cost T) c c') :
    c.scene.now.tc = replay s₀ c.scene.now.log ∧ c.scene.now.log <:+ c'.scene.now.log ∧
      ∀ t a, .finished t a ∈ c.scene.past → Explained s₀ c.scene.now.log t a := by
  obtain ⟨hgood, -⟩ := (system_threads s₀ T).run_rule (good_start_threads h.ledger T) hrun
  obtain ⟨-, hlog⟩ := (system_threads s₀ T).run_rule hgood hlater
  exact ⟨hgood.1.replay, hlog, hgood.1.finished⟩

theorem interleaved_calls_replay_twice : ∃ past,
    Steps (Shared.world meetingConfig.cost Registers) (Shared.start meeting)
      ⟨⟨metTwice, past⟩, []⟩ ∧ metTwice.tc = replay meeting metTwice.log ∧
    metTwice.log <:+ metTwice.log ∧
    ∀ t a, .finished t a ∈ past → Explained meeting metTwice.log t a := by
  obtain ⟨past, _, _, hrun, -, -⟩ := met_twice
  exact ⟨past, hrun, interleaved_calls_replay (.new meeting_new) hrun .refl⟩

/-- Whatever many threads do, the ledger of the host tier stays within its capacity, and nothing
is reserved while the lock is free. -/
theorem interleaved_ledger {s₀ : Runtime} (h : Reachable s₀) {T : Call → Prop}
    {c : Config Thread Shared Critical.Resp (Except Error Reply)}
    (hrun : Steps (Shared.world s₀.config.cost T) (Shared.start s₀) c) :
    c.scene.now.tc.accounting.used .host ≤ c.scene.now.tc.accounting.capacity .host ∧
      c.scene.now.tc.accounting.host.reserved = 0 := by
  obtain ⟨hgood, -⟩ := (system_threads s₀ T).run_rule (good_start_threads h.ledger T) hrun
  exact ⟨hgood.1.ledger.fits, hgood.1.ledger.reserved⟩

theorem interleaved_ledger_twice : ∃ past,
    Steps (Shared.world meetingConfig.cost Registers) (Shared.start meeting)
      ⟨⟨metTwice, past⟩, []⟩ ∧
    metTwice.tc.accounting.used .host ≤ metTwice.tc.accounting.capacity .host ∧
      metTwice.tc.accounting.host.reserved = 0 := by
  obtain ⟨past, _, _, hrun, -, -⟩ := met_twice
  exact ⟨past, hrun, interleaved_ledger (.new meeting_new) hrun⟩

/-! ### Registrations of one object -/

section Once

variable {oid : ObjectId} {s : Runtime} {ev : Runtime.Event}

lemma Runtime.Present.perform {eff : Effect} (h : Present oid s) (hkeep : t.call ≠ .delete oid) :
    Present oid (eff.perform t s) := by
  cases eff with
  | call env => exact h.exec hkeep
  | looked | short => exact h
  | used env oid' => exact (Present.stable oid).update s oid' _ h
  | room env needed =>
    refine Keeps.state (I := Present oid) ?_ h
    exact Keeps.get_bind fun _ => Keeps.ite Keeps.pure ((Present.guarded oid).stripWhile _ _)
  | admitted env r checked =>
    refine Keeps.state (I := Present oid) ?_ h
    refine Keeps.get_bind fun _ => Keeps.ite Keeps.throw ?_
    exact Keeps.bind (Keeps.zoom (Present.stable oid).host) fun _ => Keeps.modify fun _ hs => hs.insert

lemma Runtime.Present.replay (hkeep : ∀ p ∈ log', p.1.call ≠ .delete oid) (hlog : log <:+ log')
    (h : Present oid (replay s₀ log)) : Present oid (replay s₀ log') := by
  obtain ⟨newer, rfl⟩ := hlog
  induction newer with
  | nil => exact h
  | cons p newer ih =>
    exact (ih fun p' hp' => hkeep p' (List.mem_cons_of_mem _ hp')).perform
      (hkeep p List.mem_cons_self)

/-- Everything that takes effect keeps the ledger in order. -/
lemma Runtime.Ledger.replay (h : Ledger s₀) (log : List (Thread × Effect)) :
    Ledger (replay s₀ log) := by
  induction log with
  | nil => exact h
  | cons p log ih =>
    obtain ⟨t, eff⟩ := p
    cases eff with
    | call env => exact ih.beginCall.call_state env t.call
    | looked | short => exact ih.beginCall
    | used env oid => exact ⟨ih.budget, ih.reserved⟩
    | room env needed => exact ih.evictToFree env needed
    | admitted env r checked =>
      change Ledger (Runtime.admitAfter env r checked _).state
      rcases ih.admitAfter env r checked with ⟨e, hrun⟩ | ⟨-, s', hrun, hledger⟩
      · rw [hrun]
        exact ih
      · rw [hrun]
        exact hledger

/-- A registration that takes effect as a whole finds no entry and leaves one. -/
lemma present_of_register {env : Env} {r : Registration} {x : Reply}
    (hcall : t.call = .register r) (hout : outcome (call env t.call s.beginCall) = .ok x) :
    ¬ Present r.address.objectId s ∧
      Present r.address.objectId (Effect.perform t (.call env) s) := by
  have hperform : Effect.perform t (.call env) s = (call env (.register r) s.beginCall).state := by
    rw [← hcall]
    rfl
  rw [hperform]
  rw [hcall] at hout
  cases hrun : Runtime.register env r s.beginCall with
  | error e s' =>
    have herror : call env (.register r) s.beginCall = .error e s' := bind_of_error hrun
    rw [herror] at hout
    cases hout
  | ok oid s' =>
    have hok : call env (.register r) s.beginCall = .ok (.registered oid) s' := bind_of_ok hrun
    rw [hok]
    refine ⟨fun hpresent => ?_, lookup_of_register hrun⟩
    cases hcheck : s.beginCall.registerCheck r with
    | error e =>
      rw [register_of_error hcheck] at hok
      cases hok
    | ok checked =>
      obtain ⟨-, -, -, -, hnone⟩ := registerCheck_ok hcheck
      unfold Present at hpresent
      rw [show s.entries.lookup _ = _ from hnone] at hpresent
      cases hpresent

/-- A registration that succeeds takes effect as a whole, or it had to make room. -/
lemma Replayed.registered {r : Registration} {x : Reply} (h : Replayed s₀ T c)
    (hcall : t.call = .register r) (hfin : .finished t (.ok x) ∈ c.past) :
    (∃ env earlier, (t, .call env) :: earlier <:+ c.now.log ∧
      outcome (call env t.call (TensorCache.replay s₀ earlier).beginCall) = .ok x) ∨
    HadNoRoom s₀ c.now.log t r := by
  have hexplained := h.finished t _ hfin
  generalize hx : (.ok x : Except Error Reply) = a at hexplained
  cases hexplained with
  | whole hlog => exact .inl ⟨_, _, hlog, rfl⟩
  | looked hlookup =>
    rw [hcall] at hlookup
    cases hlookup
  | refused => cases hx
  | admitted hregister hroom =>
    rw [hcall] at hregister
    cases hregister
    exact .inr hroom

/-- Of two registrations of an object that take effect as a whole, the later one fails. -/
lemma not_registered_later {env env' : Env} {t' : Thread} {r r' : Registration} {x x' : Reply}
    {earlier earlier' : List (Thread × Effect)}
    (hsame : r.address.objectId = r'.address.objectId)
    (hcall : t.call = .register r) (hcall' : t'.call = .register r')
    (hout : outcome (call env t.call (replay s₀ earlier).beginCall) = .ok x)
    (hout' : outcome (call env' t'.call (replay s₀ earlier').beginCall) = .ok x')
    (hkeep : ∀ p ∈ earlier', p.1.call ≠ .delete r.address.objectId) :
    ¬ (t, .call env) :: earlier <:+ earlier' := by
  intro hlog
  obtain ⟨-, hpresent⟩ := present_of_register hcall hout
  obtain ⟨habsent, -⟩ := present_of_register hcall' hout'
  rw [← hsame] at habsent
  exact habsent (Present.replay hkeep hlog hpresent)

/-- Two threads are both told that they have registered an object only if one of them had to make
room, unless some thread deletes the object. -/
theorem interleaved_registered_once {s₀ : Runtime} {T : Call → Prop} (h : Reachable s₀)
    {c : Config Thread Shared Critical.Resp (Except Error Reply)}
    (hrun : Steps (Shared.world s₀.config.cost T) (Shared.start s₀) c) {t t' : Thread}
    (hne : t ≠ t') {r r' : Registration} (hcall : t.call = .register r)
    (hcall' : t'.call = .register r') (hsame : r.address.objectId = r'.address.objectId)
    (hkeep : ¬ T (.delete r.address.objectId)) {x x' : Reply}
    (hfin : .finished t (.ok x) ∈ c.scene.past) (hfin' : .finished t' (.ok x') ∈ c.scene.past) :
    HadNoRoom s₀ c.scene.now.log t r ∨ HadNoRoom s₀ c.scene.now.log t' r' := by
  obtain ⟨⟨hI, -⟩, -⟩ := (system_threads s₀ T).run_rule (good_start_threads h.ledger T) hrun
  have hnever : ∀ {earlier}, earlier <:+ c.scene.now.log →
      ∀ p ∈ earlier, p.1.call ≠ .delete r.address.objectId := by
    intro earlier hearlier p hp heq
    exact hkeep (heq ▸ hI.calls p (hearlier.subset hp))
  rcases hI.registered hcall hfin with ⟨env, earlier, hlog, hout⟩ | hroom
  · rcases hI.registered hcall' hfin' with ⟨env', earlier', hlog', hout'⟩ | hroom'
    · exfalso
      rcases List.suffix_or_suffix_of_suffix hlog hlog' with hle | hle
      · rcases List.suffix_cons_iff.mp hle with heq | hle
        · cases heq
          exact hne rfl
        · exact not_registered_later hsame hcall hcall' hout hout'
            (hnever ((List.suffix_cons _ _).trans hlog')) hle
      · rcases List.suffix_cons_iff.mp hle with heq | hle
        · cases heq
          exact hne rfl
        · refine not_registered_later hsame.symm hcall' hcall hout' hout ?_ hle
          rw [← hsame]
          exact hnever ((List.suffix_cons _ _).trans hlog)
    · exact .inr hroom'
  · exact .inl hroom

theorem interleaved_registered_once_twice : ∃ past,
    Steps (Shared.world meetingConfig.cost Registers) (Shared.start meeting)
      ⟨⟨metTwice, past⟩, []⟩ ∧
    (HadNoRoom meeting metTwice.log (registers 1 (bytePair 0 1 2)) (bytePair 0 1 2) ∨
      HadNoRoom meeting metTwice.log (registers 2 (bytePair 0 1 2)) (bytePair 0 1 2)) := by
  obtain ⟨past, reply, reply', hrun, hfin, hfin'⟩ := met_twice
  have hne : registers 1 (bytePair 0 1 2) ≠ registers 2 (bytePair 0 1 2) := fun h =>
    absurd (congrArg Thread.id h) (by decide)
  exact ⟨past, hrun, interleaved_registered_once (.new meeting_new) hrun hne rfl rfl rfl
    (not_registers_delete _) hfin hfin'⟩

end Once

/-! ### Payloads -/

section Payloads

variable {sc : Scope} {config : RuntimeConfig} {o : Origin} {s s₁ : Runtime} {env : Env}
  {r : Registration}

lemma insert_erase {α β : Type} [DecidableEq α] (m : HashMap α β) (k : α) (b : β) :
    (m.erase k).insert k b = m.insert k b := by
  refine AList.ext ?_
  change _ :: List.kerase k (List.kerase k m.entries) = _ :: List.kerase k m.entries
  rw [List.kerase_of_notMem_keys (List.notMem_keys_kerase k m.nodupKeys)]

lemma demand_erase_le (w : List BlockRef → Placement → ℕ) (entries : HashMap Str Entry) (k : Str) :
    demand w (entries.erase k) ≤ demand w entries := by
  cases he : entries.lookup k with
  | none =>
    rw [AList.erase_of_lookup_none he]
  | some e =>
    have := demand_erase (w := w) he
    omega

/-- An entry may be lost; what it held is then held by nobody. -/
lemma Safe.lose (h : Safe sc config o s) (k : Str) :
    Safe sc config o { s with entries := s.entries.erase k } where
  config_eq := h.config_eq
  blockSize := h.blockSize
  entry k' e he := by
    change (s.entries.erase k).lookup k' = some e at he
    rw [AList.lookup_erase_eq_ite] at he
    split_ifs at he
    exact h.entry k' e he
  host := h.host
  hostDemand x := (demand_erase_le _ _ _).trans (h.hostDemand x)
  deviceDemand x := (demand_erase_le _ _ _).trans (h.deviceDemand x)
  durable := h.durable

/-- A registration that is admitted late may take the place of another one. -/
lemma Safe.admitAfter (h : Safe sc config o s) (hr : r ∈ sc.registered) (hs₁ : s₁.config = config)
    {checked : Checked} (hcheck : s₁.registerCheck r
      = .ok (checked.byteLen, checked.numel, checked.blocks)) (env : Env) :
    ∃ o, Safe sc config o (Runtime.admitAfter env r checked s).state := by
  obtain ⟨-, -, -, hchunk, -⟩ := registerCheck_ok hcheck
  rw [hs₁] at hchunk
  obtain ⟨hrefs, htiles⟩ := chunk_spec hchunk
  unfold Runtime.admitAfter
  rw [get_bind_apply]
  by_cases hfull : checked.newHost > s.accounting.free .host
  · rw [if_pos hfull]
    exact ⟨o, h⟩
  · have hfits := not_lt.mp hfull
    rw [if_neg hfull, hrefs, h.admitEntry_eq htiles hfits]
    have hsafe := (h.lose r.address.objectId.toHex).enter hr hs₁ hcheck
      (AList.lookup_erase _ _) hfits env
    have hsame : withEntry env r checked.byteLen checked.numel
        (pieces r.payload config.blockSize.toNat) checked.newHost
        { s with entries := s.entries.erase r.address.objectId.toHex }
      = withEntry env r checked.byteLen checked.numel
        (pieces r.payload config.blockSize.toNat) checked.newHost s := by
      unfold withEntry insertEntry
      simp only [Runtime.setHostTier, insert_erase]
      rfl
    rw [hsame] at hsafe
    exact ⟨_, hsafe⟩

/-- Everything that takes effect keeps the runtime safe. -/
lemma Safe.replay (hS : CollisionFree sc.blocks) (h₀ : Safe sc config o s₀)
    {log : List (Thread × Effect)}
    (hcalls : ∀ p ∈ log, ∀ r, p.1.call = .register r → r ∈ sc.registered)
    (hchecked : ∀ t env r checked earlier, (t, .admitted env r checked) :: earlier <:+ log →
      t.call = .register r ∧ CheckedBefore s₀ r checked earlier) :
    ∃ o, Safe sc config o (replay s₀ log) := by
  induction log with
  | nil => exact ⟨o, h₀⟩
  | cons p log ih =>
    obtain ⟨t, eff⟩ := p
    obtain ⟨o', h⟩ := ih (fun p hp => hcalls p (List.mem_cons_of_mem _ hp))
      fun t env r checked earlier hearlier =>
        hchecked t env r checked earlier (hearlier.trans (List.suffix_cons _ _))
    cases eff with
    | call env =>
      refine ⟨_, (h.exec_rule hS (fun r hr => ?_) (Extension.trivial ..)).1⟩
      exact hcalls _ List.mem_cons_self r (lookup_of_registration hr).1
    | looked | short => exact ⟨o', h.beginCall⟩
    | used env oid => exact ⟨o', h.touch (Entry.touches_recordUse env) oid⟩
    | room env needed =>
      refine ⟨o', Keeps.state (I := Safe sc config o') ?_ h⟩
      refine Keeps.get_bind fun _ => Keeps.ite Keeps.pure ?_
      exact stripWhile_keeps fun _ _ s oid tier _ _ hs => (hs.remove hS env oid tier).2
    | admitted env r checked =>
      obtain ⟨hcall, before, -, hcheck⟩ := hchecked t env r checked log List.suffix_rfl
      have hconfig : (TensorCache.replay s₀ before).config = config :=
        (config_replay s₀ before).trans h₀.config_eq
      exact h.admitAfter (hcalls _ List.mem_cons_self r hcall) hconfig hcheck env

/-- The registrations of earlier sessions and of the threads. -/
def threadScope (sizes : Set ℕ) (log : List Registration) (config : RuntimeConfig)
    (T : Call → Prop) : Scope where
  registered := { r | r ∈ log ∨ T (.register r) }
  sizes := insert config.blockSize.toNat sizes

lemma restore_of_outcome {oid : ObjectId} {tier : Tier} {bytes : Bytes}
    (h : outcome (call env (.restore oid tier) s) = .ok (.restored bytes)) :
    ∃ s', Runtime.restore env oid tier s = .ok bytes s' := by
  cases hrun : Runtime.restore env oid tier s with
  | error e s' =>
    have herror : call env (.restore oid tier) s = .error e s' := bind_of_error hrun
    rw [herror] at h
    cases h
  | ok bytes' s' =>
    have hok : call env (.restore oid tier) s = .ok (.restored bytes') s' := bind_of_ok hrun
    rw [hok] at h
    cases h
    exact ⟨s', rfl⟩

lemma entry_of_materializePayload {oid : ObjectId} {bytes : Bytes}
    (h : s.materializePayload oid = .ok bytes) : ∃ e, s.entries.lookup oid.toHex = some e := by
  unfold Runtime.materializePayload at h
  cases hmeta : s.getMeta oid with
  | error e =>
    rw [hmeta] at h
    cases h
  | ok e => exact ⟨e, Runtime.getMeta_eq_ok.mp hmeta⟩

lemma entry_of_find {address : Address} {compat : CompatKey} {found : Found} {s' : Runtime}
    (h : Runtime.find address compat s = .ok found s') :
    ∃ e, s.entries.lookup address.objectId.toHex = some e ∧ e.compatId = compat.compatId ∧
      found.byteLen = e.byteLen := by
  unfold Runtime.find at h
  rw [get_bind_apply] at h
  cases he : s.entries.lookup address.objectId.toHex with
  | none =>
    simp only [he] at h
    cases h
  | some e =>
    simp only [he] at h
    by_cases hne : e.compatId ≠ compat.compatId
    · rw [if_pos hne] at h
      cases h
    · rw [if_neg hne] at h
      cases h
      exact ⟨e, rfl, not_not.mp hne, rfl⟩

/-- A lookup that hits has found an entry with this compatibility id. -/
lemma entry_of_lookup {address : Address} {compat : CompatKey} {result : LookupResult}
    (h : outcome (call env (.lookup address compat) s) = .ok (.found result)) :
    ∃ e, s.entries.lookup address.objectId.toHex = some e ∧ e.compatId = compat.compatId ∧
      result.bytes = e.byteLen := by
  rcases find_cases env address compat s with ⟨found, hfind, hlookup⟩ | ⟨e, -, hlookup⟩
  · have hok : call env (.lookup address compat) s = _ := bind_of_ok hlookup
    rw [hok] at h
    cases h
    exact entry_of_find hfind
  · have herror : call env (.lookup address compat) s = _ := bind_of_error hlookup
    rw [herror] at h
    cases h

/-- The bytes that a thread restores are those of a registration of the object, and a lookup that
hits is of a registration with this address and this compatibility id. -/
theorem interleaved_results_faithful {sizes : Set ℕ} {disk : Disk} {log : List Registration}
    (hist : History sizes disk log) {env : Env} {extra : List Backend} {pid : ℕ} {s₀ : Runtime}
    (hnew : Runtime.new env config extra disk pid = .ok s₀) {T : Call → Prop}
    (hS : CollisionFree (threadScope sizes log config T).blocks)
    {c : Config Thread Shared Critical.Resp (Except Error Reply)}
    (hrun : Steps (Shared.world s₀.config.cost T) (Shared.start s₀) c) {t : Thread} :
    (∀ oid tier bytes, t.call = .restore oid tier →
      .finished t (.ok (.restored bytes)) ∈ c.scene.past →
      ∃ r ∈ (threadScope sizes log config T).registered,
        r.address.objectId = oid ∧ r.payload = bytes) ∧
    ∀ address compat result, t.call = .lookup address compat →
      .finished t (.ok (.found result)) ∈ c.scene.past →
      ∃ r ∈ (threadScope sizes log config T).registered,
        r.address.objectId = address.objectId ∧ r.compat.compatId = compat.compatId ∧
          result.bytes.toNat = r.payload.length := by
  have hfiles := hist.files hS (fun _ hr => .inl hr) (Set.subset_insert _ _)
  obtain ⟨-, o, hsafe₀⟩ := new_spec hS hfiles (Set.mem_insert _ _) hnew
  obtain ⟨⟨hI, -⟩, -⟩ := (system_threads s₀ T).run_rule
    (good_start_threads (Reachable.new hnew).ledger T) hrun
  -- the states in which calls took effect are safe
  have hsafe : ∀ earlier, earlier <:+ c.scene.now.log →
      ∃ o, Safe (threadScope sizes log config T) config o (replay s₀ earlier).beginCall := by
    intro earlier hearlier
    obtain ⟨o', h⟩ := Safe.replay hS hsafe₀ (fun p hp r hr => .inr (hr ▸ hI.calls p (hearlier.subset hp)))
      fun t env r checked before hbefore =>
        hI.checked t env r checked before (hbefore.trans hearlier)
    exact ⟨o', h.beginCall⟩
  have heffect : ∀ {a}, .finished t (.ok a) ∈ c.scene.past → (∀ r, t.call ≠ .register r) →
      ∃ env s o, Safe (threadScope sizes log config T) config o s ∧
        outcome (call env t.call s) = .ok a := by
    intro a hfin hcall
    have hexplained := hI.finished t _ hfin
    generalize hx : (.ok a : Except Error Reply) = x at hexplained
    cases hexplained with
    | whole h | looked _ h =>
      obtain ⟨o', hs⟩ := hsafe _ ((List.suffix_cons _ _).trans h)
      exact ⟨_, _, o', hs, rfl⟩
    | refused => cases hx
    | admitted hregister => exact absurd hregister (hcall _)
  refine ⟨fun oid tier bytes hcall hfin => ?_, fun address compat result hcall hfin => ?_⟩
  · obtain ⟨env, s, o, hs, hout⟩ := heffect hfin (by simp [hcall])
    rw [hcall] at hout
    obtain ⟨s', hrestore⟩ := restore_of_outcome hout
    have hpayload := materializePayload_of_restore hrestore
    obtain ⟨e, he⟩ := entry_of_materializePayload hpayload
    obtain ⟨r, ho, hok⟩ := hs.entry _ e he
    have hbytes := hs.eq_of_materializePayload hS ho hpayload
    exact ⟨r, hok.registered, (ObjectId.toHex_injective hok.key).symm, hbytes.symm⟩
  · obtain ⟨env, s, o, hs, hout⟩ := heffect hfin (by simp [hcall])
    rw [hcall] at hout
    obtain ⟨e, he, hcompat, hlen⟩ := entry_of_lookup hout
    obtain ⟨r, -, hok⟩ := hs.entry _ e he
    refine ⟨r, hok.registered, (ObjectId.toHex_injective hok.key).symm, ?_, ?_⟩
    · rw [← hok.compatId, hcompat]
    · rw [hlen, hok.byteLen_toNat]

/-- One thread registers a pair, a second one restores it, a third one looks it up. -/
def PairCalls (c : Call) : Prop :=
  c ∈ [.register (bytePair 0 1 2), .restore (bytePair 0 1 2).address.objectId .host,
    .lookup (bytePair 0 1 2).address (bytePair 0 1 2).compat]

lemma pairCalls_collisionFree : CollisionFree (threadScope ∅ [] meetingConfig PairCalls).blocks := by
  have hone : ∀ b ∈ (threadScope ∅ [] meetingConfig PairCalls).blocks, b = [1, 2] := by
    rintro b ⟨r, hr, n, hn, hb⟩
    have hpair : r = bytePair 0 1 2 := by
      rcases hr with hr | hr
      · cases hr
      · change _ ∈ [_, _, _] at hr
        simpa using hr
    have hsize : n = 8 := by
      rcases hn with hn | hn
      · exact hn
      · cases hn
    rw [hpair, hsize, show pieces (bytePair 0 1 2).payload 8 = [[1, 2]] from rfl] at hb
    exact List.mem_singleton.mp hb
  intro b hb b' hb' _
  rw [hone b hb, hone b' hb']

def pairRestorer : Thread := ⟨1, .restore (bytePair 0 1 2).address.objectId .host⟩

def pairRegistered : Shared :=
  (alone (registers 0 (bytePair 0 1 2)) (registering (bytePair 0 1 2)) ⟨meeting, []⟩).2

def pairRestored : Except Error Reply × Shared :=
  alone pairRestorer (Job.call meetingConfig.cost pairRestorer.call) pairRegistered

/-- The bytes of a reply. -/
def restoredBytes : Except Error Reply → Option Bytes
  | .ok (.restored bytes) => some bytes
  | _ => none

lemma eq_restored {x : Except Error Reply} {bytes : Bytes} (h : restoredBytes x = some bytes) :
    x = .ok (.restored bytes) := by
  unfold restoredBytes at h
  split at h
  · cases h
    rfl
  · cases h

lemma pair_restored : ∃ past, Steps (Shared.world meetingConfig.cost PairCalls)
      (Shared.start meeting) ⟨⟨pairRestored.2, past⟩, []⟩ ∧
    .finished pairRestorer (.ok (.restored [1, 2])) ∈ past := by
  obtain ⟨past₁, -, hregister⟩ := steps_alone (T := PairCalls)
    (t := registers 0 (bytePair 0 1 2)) meetingConfig.cost List.mem_cons_self ⟨meeting, []⟩ [] []
  obtain ⟨past₂, -, hrestore⟩ := steps_alone (T := PairCalls)
    (t := pairRestorer) meetingConfig.cost (List.mem_cons_of_mem _ List.mem_cons_self) pairRegistered
    (.finished _ _ :: past₁) []
  have hbytes : pairRestored.1 = .ok (.restored [1, 2]) :=
    eq_restored (by decide +kernel)
  refine ⟨_, hregister.trans hrestore, ?_⟩
  change _ ∈ Event.finished _ pairRestored.1 :: _
  rw [hbytes]
  exact List.mem_cons_self

theorem interleaved_results_faithful_pair : ∃ past,
    Steps (Shared.world meetingConfig.cost PairCalls) (Shared.start meeting)
      ⟨⟨pairRestored.2, past⟩, []⟩ ∧
    .finished pairRestorer (.ok (.restored [1, 2])) ∈ past ∧
    ∃ r ∈ (threadScope ∅ [] meetingConfig PairCalls).registered,
      r.address.objectId = (bytePair 0 1 2).address.objectId ∧ r.payload = [1, 2] := by
  obtain ⟨past, hrun, hfin⟩ := pair_restored
  exact ⟨past, hrun, hfin, (interleaved_results_faithful .empty meeting_new pairCalls_collisionFree
    hrun).1 _ _ _ rfl hfin⟩

end Payloads

end TensorCache
