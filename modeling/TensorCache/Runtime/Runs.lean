import TensorCache.Runtime.Moves

/-!
# Runs

`Safe.call_rule` is the rule for calls in safe states: a further property only has to be shown
for the effects of the moves. Every call keeps `Safe`, and so does every run (`Safe.run`).
-/

namespace TensorCache

open Codec EStateM TensorCache.Runtime

namespace Origin

/-- The origins after further registrations. -/
def record (o : Origin) (rs : List Registration) : Origin :=
  rs.foldl (fun o r => Function.update o r.address.objectId.toHex (some r)) o

@[simp] lemma record_nil (o : Origin) : o.record [] = o := rfl

lemma record_append (o : Origin) (rs rs' : List Registration) :
    o.record (rs ++ rs') = (o.record rs).record rs' :=
  List.foldl_append

end Origin

namespace Runtime

/-- What a call registers when it returns. -/
def Call.registration : Call → List Registration
  | .register r => [r]
  | _ => []

/-- The registration that a call makes, if it returns. -/
def registration (s : Runtime) (ev : Event) : List Registration :=
  match call ev.env ev.call s.beginCall with
  | .ok _ _ => ev.call.registration
  | .error _ _ => []

/-- The registrations of a run. -/
def registrations (s : Runtime) : List Event → List Registration
  | [] => []
  | ev :: events => s.registration ev ++ (s.exec ev).registrations events

lemma registrations_append (s : Runtime) (events events' : List Event) :
    s.registrations (events ++ events')
      = s.registrations events ++ (s.run events).registrations events' := by
  induction events generalizing s with
  | nil => rfl
  | cons ev events ih =>
    rw [List.cons_append, registrations, registrations, ih, List.append_assoc]
    rfl

/-- A registration that fails its checks returns their error. -/
lemma register_of_error {env : Env} {s : Runtime} {r : Registration} {e : Error}
    (h : s.registerCheck r = .error e) : call env (.register r) s = .error e s := by
  have hregister : register env r s = .error e s := by
    unfold register
    rw [get_bind_apply, h]
    rfl
  change EStateM.bind (register env r) _ s = _
  rw [EStateM.bind, hregister]

/-- A registration that returns is of an object that was not there. -/
lemma lookup_of_registration {s : Runtime} {ev : Event} {r : Registration}
    (h : r ∈ s.registration ev) :
    ev.call = .register r ∧ s.entries.lookup r.address.objectId.toHex = none := by
  unfold registration at h
  cases hc : ev.call with
  | register r' =>
    rw [hc] at h
    cases hcheck : s.beginCall.registerCheck r' with
    | error err =>
      rw [register_of_error hcheck] at h
      cases h
    | ok x =>
      split at h
      · cases List.mem_singleton.mp h
        exact ⟨rfl, (registerCheck_ok hcheck).2.2.2.2⟩
      · cases h
  | _ =>
    rw [hc] at h
    split at h <;> cases h

end Runtime

/-- What has to be shown of a further property `X` of safe states; `Y` is what remains of it at
the end of the call. -/
structure Extension (sc : Scope) (config : RuntimeConfig) (o : Origin) (env : Env) (c : Call)
    (s₀ : Runtime) (X Y : Runtime → Prop) : Prop where
  start : X s₀
  touch : ∀ s oid f, Entry.Touches f → Safe sc config o s → X s → X (updateEntry oid f s)
  add : ∀ oid t e r s', c.adds = some (oid, t) → s₀.entries.lookup oid.toHex = some e →
    o oid.toHex = some r → t ∉ e.placementTiers → s₀.materializePayload oid = .ok r.payload →
    AddEffect s₀ oid r e t s' → s' = (addPlacement env oid t r.payload s₀).state → X s'
  remove : ∀ s s' oid t, c.Removes s₀ s oid t → Safe sc config o s → X s →
    RemoveEffect env s oid t s' → X s'
  enter : ∀ r byteLen numel ps n s, c = .register r → Safe sc config o s → X s →
    ps = pieces r.payload config.blockSize.toNat → Tiles r.payload ps →
    chunk r.payload config.blockSize.toNat = .ok (refsFrom 0 ps) → r ∈ sc.registered →
    s₀.registerCheck r = .ok (byteLen, numel, refsFrom 0 ps) →
    s.entries.lookup r.address.objectId.toHex = none →
    n = newBytes s₀.host.contains (refsFrom 0 ps) → n ≤ s.accounting.free .host →
    Y (withEntry env r byteLen numel ps n s)
  forget : ∀ s oid e, c = .delete oid → Safe sc config o s → X s →
    s.entries.lookup oid.toHex = some e → e.placements = [] → X (removeEntry oid s)
  clean : ∀ s oid, c = .delete oid → Safe sc config o s → X s →
    s.entries.lookup oid.toHex = none → X (s.setDurable (cleaned env oid s))
  weaken : ∀ s, X s → Y s

variable {sc : Scope} {config : RuntimeConfig} {o : Origin} {s s₀ : Runtime} {env : Env} {c : Call}
  {X Y : Runtime → Prop}

namespace Safe

/-- The rule for calls in safe states. -/
theorem call_rule (hS : CollisionFree sc.blocks) (h : Safe sc config o s₀)
    (hreg : ∀ r, c = .register r → Returns env c s₀ → r ∈ sc.registered)
    (hX : Extension sc config o env c s₀ X Y) :
    Triple (· = s₀) (call env c)
      (fun _ s => Y s ∧ Safe sc config (o.record c.registration) s)
      (fun s => X s ∧ Safe sc config o s) := by
  refine Runtime.call_rule ⟨⟨hX.start, h⟩, fun s hs => hs.2.fits, fun s oid f hf hs => ?_,
    fun oid t bytes hadds hbytes hres => ?_, fun s oid t hrem hs => ?_,
    fun r byteLen numel blocks s hc hcheck hs hkeys hfits => ?_,
    fun s oid e hc hs he hempty => ?_, fun s oid hc hs he => ?_, fun hc s hs => ?_⟩
  · exact ⟨hX.touch s oid f hf hs.2 hs.1, hs.2.touch hf oid⟩
  · obtain ⟨e, r, he, ho, ht, rfl, heff, hsafe⟩ := h.add hS hbytes hres env
    exact ⟨hX.add oid t e r _ hadds he ho ht hbytes heff rfl, hsafe⟩
  · obtain ⟨heff, hsafe⟩ := hs.2.remove hS env oid t
    exact ⟨hX.remove s _ oid t hrem hs.2 hs.1 heff, hsafe⟩
  · obtain ⟨-, -, -, hchunk, hnone⟩ := registerCheck_ok hcheck
    rw [h.config_eq] at hchunk
    obtain ⟨hrefs, htiles⟩ := chunk_spec hchunk
    rw [hrefs] at hcheck hchunk hfits ⊢
    refine ⟨_, hs.2.admitEntry_eq htiles hfits byteLen numel, ?_, fun hret => ?_⟩
    · exact hs.2.fits_withEntry hfits byteLen numel _
    · subst hc
      have hr := hreg r rfl hret
      refine ⟨hX.enter r byteLen numel _ _ s rfl hs.2 hs.1 rfl htiles hchunk hr hcheck
        (hkeys _ hnone) rfl hfits, ?_⟩
      exact hs.2.enter hr h.config_eq hcheck (hkeys _ hnone) hfits env
  · subst hc
    exact ⟨hX.forget s oid e rfl hs.2 hs.1 he hempty, hs.2.forget he hempty⟩
  · subst hc
    rw [removeManifest_state]
    exact ⟨hX.clean s oid rfl hs.2 hs.1 he, hs.2.clean env oid⟩
  · refine ⟨hX.weaken s hs.1, ?_⟩
    cases c with
    | register r => exact absurd rfl (hc r)
    | _ => exact hs.2

theorem beginCall (h : Safe sc config o s) : Safe sc config o s.beginCall := by
  refine ⟨h.config_eq, h.blockSize, h.entry, h.host, h.hostDemand, h.deviceDemand, ?_⟩
  have hfile : ∀ q, s.beginCall.durable.file q = s.durable.file q := by
    intro q
    simp only [Durable.file, Runtime.durable, Runtime.beginCall]
    cases s.persistent <;> rfl
  refine h.durable.of_store rfl rfl rfl (fun st hst => ?_) fun x _ => hfile _
  obtain ⟨st₀, hst₀, rfl⟩ := Option.map_eq_some_iff.mp hst
  exact PersistentStore.always_beginCall (h.durable.files st₀ hst₀).disk

/-- One call of a run. -/
theorem exec_rule (hS : CollisionFree sc.blocks) (h : Safe sc config o s) {ev : Event}
    (hreg : ∀ r ∈ s.registration ev, r ∈ sc.registered)
    (hX : Extension sc config o ev.env ev.call s.beginCall X Y) :
    Safe sc config (o.record (s.registration ev)) (s.exec ev) ∧ Y (s.exec ev) := by
  have hreg' : ∀ r, ev.call = .register r → Returns ev.env ev.call s.beginCall →
      r ∈ sc.registered := by
    rintro r hc ⟨a, s', hrun⟩
    refine hreg r ?_
    simp only [registration, hrun]
    rw [hc]
    exact List.mem_singleton_self r
  have hrule := call_rule hS h.beginCall hreg' hX s.beginCall rfl
  unfold exec registration
  cases hrun : call ev.env ev.call s.beginCall with
  | error err s' =>
    rw [hrun] at hrule
    exact ⟨hrule.2, hX.weaken s' hrule.1⟩
  | ok a s' =>
    rw [hrun] at hrule
    exact ⟨hrule.2, hrule.1⟩

end Safe

/-- Nothing further has to be shown for `Safe` itself. -/
lemma Extension.trivial (sc : Scope) (config : RuntimeConfig) (o : Origin) (env : Env) (c : Call)
    (s₀ : Runtime) : Extension sc config o env c s₀ (fun _ => True) (fun _ => True) := by
  constructor <;> simp

lemma Extension.and {X' Y' : Runtime → Prop} (h : Extension sc config o env c s₀ X Y)
    (h' : Extension sc config o env c s₀ X' Y') :
    Extension sc config o env c s₀ (fun s => X s ∧ X' s) (fun s => Y s ∧ Y' s) where
  start := ⟨h.start, h'.start⟩
  touch s oid f hf hsafe hs := ⟨h.touch s oid f hf hsafe hs.1, h'.touch s oid f hf hsafe hs.2⟩
  add oid t e r s' hc he ho ht hbytes heff hstate :=
    ⟨h.add oid t e r s' hc he ho ht hbytes heff hstate,
      h'.add oid t e r s' hc he ho ht hbytes heff hstate⟩
  remove s s' oid t hc hsafe hs heff :=
    ⟨h.remove s s' oid t hc hsafe hs.1 heff, h'.remove s s' oid t hc hsafe hs.2 heff⟩
  enter r byteLen numel ps n s hc hsafe hs hps htiles hchunk hr hcheck hnew hn hfits :=
    ⟨h.enter r byteLen numel ps n s hc hsafe hs.1 hps htiles hchunk hr hcheck hnew hn hfits,
      h'.enter r byteLen numel ps n s hc hsafe hs.2 hps htiles hchunk hr hcheck hnew hn hfits⟩
  forget s oid e hc hsafe hs he hempty :=
    ⟨h.forget s oid e hc hsafe hs.1 he hempty, h'.forget s oid e hc hsafe hs.2 he hempty⟩
  clean s oid hc hsafe hs he :=
    ⟨h.clean s oid hc hsafe hs.1 he, h'.clean s oid hc hsafe hs.2 he⟩
  weaken s hs := ⟨h.weaken s hs.1, h'.weaken s hs.2⟩

/-- A property of all entries that holds of new ones and does not look at what the moves
change. -/
lemma Extension.forall_entries {P : Str → Entry → Prop}
    (hstart : ∀ k e, s₀.entries.lookup k = some e → P k e)
    (htouch : ∀ k e f, Entry.Touches f → P k e → P k (f e))
    (hpush : ∀ oid t e p, c.adds = some (oid, t) → p.tier = t → P oid.toHex e →
      P oid.toHex (e.push p))
    (hwithout : ∀ s oid t e, c.Removes s₀ s oid t → s.entries.lookup oid.toHex = some e →
      P oid.toHex e → P oid.toHex (e.without t))
    (henter : ∀ r byteLen numel ps, c = .register r → r ∈ sc.registered →
      chunk r.payload config.blockSize.toNat = .ok (refsFrom 0 ps) →
      s₀.registerCheck r = .ok (byteLen, numel, refsFrom 0 ps) →
      P r.address.objectId.toHex (newEntry env r byteLen numel (refsFrom 0 ps) (refsFrom 0 ps))) :
    Extension sc config o env c s₀ (fun s => ∀ k e, s.entries.lookup k = some e → P k e)
      (fun s => ∀ k e, s.entries.lookup k = some e → P k e) where
  start := hstart
  touch s oid f hf _ hs := AList.forall_modify hs fun e _ he => htouch _ e f hf he
  add oid t e r s' hc _ _ _ _ heff _ := by
    rcases heff.entries with hsame | ⟨p, hp, hpushed⟩
    · rw [hsame]
      exact hstart
    · rw [hpushed]
      exact AList.forall_modify hstart fun e' _ he' => hpush oid t e' p hc hp he'
  remove s s' oid t hc _ hs heff := by
    rcases heff.entries with hsame | hremoved
    · rw [hsame]
      exact hs
    · rw [hremoved]
      exact AList.forall_modify hs fun e he hP => hwithout s oid t e hc he hP
  enter r byteLen numel ps n s hc _ hs _ _ hchunk hr hcheck _ _ _ :=
    AList.forall_insert hs (henter r byteLen numel ps hc hr hchunk hcheck)
  forget s oid e _ _ hs he _ := by
    have hentries : (removeEntry oid s).entries = s.entries.erase oid.toHex := by
      rw [removeEntry, he]
    rw [hentries]
    exact AList.forall_erase hs _
  clean s oid _ _ hs _ := hs
  weaken s hs := hs

/-! ### Whole runs -/

/-- All calls of a run satisfy a condition on the state they begin in. -/
def Throughout (C : Runtime → Event → Prop) : Runtime → List Event → Prop
  | _, [] => True
  | s, ev :: events => C s ev ∧ Throughout C (s.exec ev) events

lemma Throughout.mono {C C' : Runtime → Event → Prop} {events : List Event}
    (h : ∀ s, ∀ ev ∈ events, C s ev → C' s ev) (hC : Throughout C s events) :
    Throughout C' s events := by
  induction events generalizing s with
  | nil => exact hC
  | cons ev events ih =>
    refine ⟨h s ev (by simp) hC.1, ih (fun s ev' hev' => h s ev' (by simp [hev'])) hC.2⟩

lemma Throughout.true (s : Runtime) (events : List Event) :
    Throughout (fun _ _ => True) s events := by
  induction events generalizing s with
  | nil => exact trivial
  | cons ev events ih => exact ⟨trivial, ih _⟩

/-- The rule for runs: a property that every call under the condition `C` keeps holds after every
run of such calls. -/
theorem Safe.run_rule {C : Runtime → Event → Prop} (hS : CollisionFree sc.blocks)
    (hstep : ∀ o s ev, (∀ r ∈ s.registration ev, r ∈ sc.registered) → Safe sc config o s → Y s →
      C s ev → Y (s.exec ev))
    (h : Safe sc config o s) (hY : Y s) (events : List Event)
    (hreg : ∀ r ∈ s.registrations events, r ∈ sc.registered) (hC : Throughout C s events) :
    Safe sc config (o.record (s.registrations events)) (s.run events) ∧ Y (s.run events) := by
  induction events generalizing s o with
  | nil => exact ⟨h, hY⟩
  | cons ev events ih =>
    obtain ⟨hhere, hrest⟩ := hC
    have hreg' : ∀ r ∈ s.registration ev, r ∈ sc.registered :=
      fun r hr => hreg r (List.mem_append_left _ hr)
    have hsafe := (h.exec_rule hS hreg' (Extension.trivial sc config o ev.env ev.call s.beginCall)).1
    rw [Runtime.registrations, Origin.record_append]
    exact ih hsafe (hstep o s ev hreg' h hY hhere) (fun r hr => hreg r (List.mem_append_right _ hr))
      hrest

/-- Every run keeps `Safe`. -/
theorem Safe.run (hS : CollisionFree sc.blocks) (h : Safe sc config o s) (events : List Event)
    (hreg : ∀ r ∈ s.registrations events, r ∈ sc.registered) :
    Safe sc config (o.record (s.registrations events)) (s.run events) :=
  (Safe.run_rule (Y := fun _ => True) hS (fun _ _ _ _ _ _ _ => trivial) h trivial events hreg
    (Throughout.true s events)).1

end TensorCache
