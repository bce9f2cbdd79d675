import TensorCache.Coordinator.History

/-!
# Authority after a restart

A coordinator restarts in place, with a new epoch and boot identity, or in a new process that
loads the snapshot. Both keep the owners and the fences. A lease is renewed on nothing but the
fence, so the fences that nodes hold from before the restart stay good; and the restart in place
keeps the pending migrations, whose acknowledgements are still accepted.
-/

namespace TensorCache

open EStateM

namespace Coordinator

/-- The two ways a coordinator restarts. -/
inductive Restart where
  | inPlace (boot : BootId)
  | fromSnapshot (order : IterOrder) (boot boot' : BootId) (leaseNs : UInt64)

namespace Restart

def apply : Restart → Coordinator → Coordinator
  | inPlace boot, c => c.restart boot
  | fromSnapshot order boot boot' leaseNs, c =>
    (start (some (snapshot order c)) boot boot' leaseNs).state

def InPlace : Restart → Prop
  | inPlace _ => True
  | fromSnapshot .. => False

end Restart

/-- What happens to a coordinator: it handles a message, or restarts. -/
inductive Turn where
  | handle (now : UInt64) (m : Message)
  | restart (r : Restart)

namespace Turn

def apply : Turn → Coordinator → Coordinator
  | handle now m, c => (c.handle now m).state
  | restart r, c => r.apply c

/-- The turn handles a message of the given type. -/
def Handles (type : MsgType) : Turn → Prop
  | handle _ m => m.msgType = type
  | restart _ => False

/-- The turn handles a request to migrate the object. -/
def Migrates (id : Str) : Turn → Prop
  | handle _ (.migrate id' _ _ _) => id' = id
  | _ => False

end Turn

/-- The coordinator some turns later, newest first. -/
def later (c : Coordinator) : List Turn → Coordinator
  | [] => c
  | t :: turns => t.apply (later c turns)

section Restart

variable {c : Coordinator}

/-- A new process has the owners of the snapshot and no pending migrations. -/
lemma fromSnapshot_spec (hsmall : c.objects.keys.length < 2 ^ 64) (order : IterOrder)
    (boot boot' : BootId) (leaseNs : UInt64) :
    ((Restart.fromSnapshot order boot boot' leaseNs).apply c).owners = c.owners ∧
      ((Restart.fromSnapshot order boot boot' leaseNs).apply c).migrations = ∅ := by
  simp only [Restart.apply, start, loadState_snapshot hsmall order boot' (new boot leaseNs)]
  refine ⟨?_, rfl⟩
  funext id
  exact owners_ofRows order c.objects c.epoch id

/-- A restart preserves the owners and the fences. -/
lemma owners_restart (hsmall : c.objects.keys.length < 2 ^ 64) (r : Restart) :
    (r.apply c).owners = c.owners := by
  cases r with
  | inPlace boot => rfl
  | fromSnapshot order boot boot' leaseNs =>
    exact (fromSnapshot_spec hsmall order boot boot' leaseNs).1

/-- Whatever the snapshot, a new process starts without pending migrations. -/
lemma migrations_fromSnapshot (order : IterOrder) (boot boot' : BootId) (leaseNs : UInt64) :
    ((Restart.fromSnapshot order boot boot' leaseNs).apply c).migrations = ∅ := by
  simp only [Restart.apply, start]
  cases hload : loadState (some (snapshot order c)) boot' (new boot leaseNs) with
  | error e c' =>
    rw [loadState_error hload]
    rfl
  | ok u c' =>
    by_cases hread : ∃ p, readSnapshot (snapshot order c) = .ok (p, [])
    · obtain ⟨⟨epoch, rows⟩, hread⟩ := hread
      rw [loadState_of_read hread] at hload
      cases hload
      rfl
    · push Not at hread
      obtain ⟨e, he⟩ := loadState_of_not_read hread boot' (new boot leaseNs)
      rw [he] at hload
      cases hload

/-- Nobody owns anything. -/
def Unowned (c : Coordinator) : Prop := ∀ id, c.owners id = none

lemma Unowned.small (h : Unowned c) : c.objects.keys.length < 2 ^ 64 := by
  have hnil : c.objects.keys = [] := by
    refine List.eq_nil_iff_forall_not_mem.mpr fun id hid => ?_
    have hsome : (c.objects.lookup id).isSome := AList.lookup_isSome.mpr hid
    have hnone := h id
    simp only [owners, Option.map_eq_none_iff] at hnone
    rw [hnone] at hsome
    cases hsome
  rw [hnil]
  decide

/-- Only a claim gives an object an owner. -/
lemma Unowned.apply (h : Unowned c) {t : Turn} (hcreate : ¬t.Handles .create) :
    Unowned (t.apply c) := by
  cases t with
  | restart r =>
    intro id
    change (r.apply c).owners id = none
    rw [owners_restart h.small r]
    exact h id
  | handle now m =>
    intro id
    cases touch_handle now m c id with
    | kept howner => exact howner.trans (h id)
    | created n _ _ _ _ _ hclaim =>
      obtain ⟨_, _, heq, htype⟩ := hclaim
      cases heq
      exact absurd htype hcreate
    | accepted n o g _ _ howner =>
      rw [h id] at howner
      cases howner
    | committed n f _ _ howner => exact howner.trans (by rw [h id]; rfl)

lemma Unowned.later (h : Unowned c) {turns : List Turn} (hcreate : ∀ t ∈ turns, ¬t.Handles .create) :
    Unowned (c.later turns) := by
  induction turns with
  | nil => exact h
  | cons t turns ih =>
    exact (ih fun t' ht' => hcreate t' (List.mem_cons_of_mem _ ht')).apply
      (hcreate t List.mem_cons_self)

/-- A pending migration comes from a request to migrate. -/
lemma settled_later {id : Str} (h : c.migrations.lookup id = none) {turns : List Turn}
    (hnot : ∀ t ∈ turns, ¬t.Migrates id) : (c.later turns).migrations.lookup id = none := by
  induction turns with
  | nil => exact h
  | cons t turns ih =>
    have hbefore := ih fun t' ht' => hnot t' (List.mem_cons_of_mem _ ht')
    cases t with
    | restart r =>
      cases r with
      | inPlace boot =>
        simp only [Coordinator.later, Turn.apply, Restart.apply, restart]
        exact hbefore
      | fromSnapshot order boot boot' leaseNs =>
        have hnone := migrations_fromSnapshot (c := c.later turns) order boot boot' leaseNs
        simp only [Coordinator.later, Turn.apply, hnone]
        rfl
    | handle now m =>
      cases touch_handle now m (c.later turns) id with
      | kept _ hpending => exact hpending.trans hbefore
      | created _ _ _ hpending => exact hpending.trans hbefore
      | accepted n o g hacc =>
        obtain ⟨_, _, _, _, _, heq, -⟩ := hacc
        cases heq
        exact absurd rfl (hnot _ List.mem_cons_self)
      | committed _ _ _ _ _ hdone => exact hdone

lemma leaseRenew_refused {id : Str} {now f : UInt64} (h : c.owners id = none) :
    ∃ e, c.handle now (.leaseRenew id f) = .error e c := by
  have hcases := c.handled now (.leaseRenew id f)
  generalize c.handle now (.leaseRenew id f) = res at hcases
  cases hcases with
  | renewed _ state hsome => simp [owners, hsome] at h
  | renewRefused _ _ _ e => exact ⟨e, rfl⟩
  | idle _ hidle => cases hidle

lemma leaseRenew_granted {id o : Str} {now f : UInt64} (h : c.owners id = some (o, f)) (e : Error)
    (c' : Coordinator) : c.handle now (.leaseRenew id f) ≠ .error e c' := by
  obtain ⟨state, hstate, heq⟩ := Option.map_eq_some_iff.mp h
  have hfence : f = state.fence := (Prod.mk.inj heq).2.symm
  have hcases := c.handled now (.leaseRenew id f)
  generalize c.handle now (.leaseRenew id f) = res at hcases
  cases hcases with
  | renewed => simp
  | renewRefused _ _ hne => exact absurd hfence (hne state hstate)
  | idle _ hidle => cases hidle

lemma migrateAck_refused {id n : Str} {now f : UInt64} (h : c.migrations.lookup id = none) :
    ∃ e, c.handle now (.migrateAck id n f) = .error e c := by
  have hcases := c.handled now (.migrateAck id n f)
  generalize c.handle now (.migrateAck id n f) = res at hcases
  cases hcases with
  | migrated _ _ _ hsome =>
    rw [h] at hsome
    cases hsome
  | ackRefused _ _ _ _ e => exact ⟨e, rfl⟩
  | idle _ hidle => cases hidle

lemma migrateAck_accepted {id : Str} {p : PendingMigration} {now : UInt64}
    (h : c.migrations.lookup id = some p) (e : Error) (c' : Coordinator) :
    c.handle now (.migrateAck id p.newOwner p.toFence) ≠ .error e c' := by
  have hcases := c.handled now (.migrateAck id p.newOwner p.toFence)
  generalize c.handle now (.migrateAck id p.newOwner p.toFence) = res at hcases
  cases hcases with
  | migrated => simp
  | ackRefused _ _ _ hne => exact absurd h hne
  | idle _ hidle => cases hidle

/-- Until a node registers, no lease is renewed. No object is claimed meanwhile. -/
def NoLease (c : Coordinator) : Prop :=
  ∀ turns : List Turn, (∀ t ∈ turns, ¬t.Handles .register ∧ ¬t.Handles .create) →
    ∀ now id f, ∃ e, (c.later turns).handle now (.leaseRenew id f) = .error e (c.later turns)

/-- Until a migration of the object is requested, none is acknowledged. -/
def NoAck (c : Coordinator) (id : Str) : Prop :=
  ∀ turns : List Turn, (∀ t ∈ turns, ¬t.Migrates id) →
    ∀ now n f, ∃ e, (c.later turns).handle now (.migrateAck id n f) = .error e (c.later turns)

lemma noLease_iff : NoLease c ↔ Unowned c := by
  constructor
  · intro h id
    by_contra hne
    obtain ⟨⟨o, f⟩, howner⟩ := Option.ne_none_iff_exists'.mp hne
    obtain ⟨e, he⟩ := h [] (by simp) 0 id f
    exact leaseRenew_granted howner e _ he
  · intro h turns hturns now id f
    exact leaseRenew_refused (h.later (fun t ht => (hturns t ht).2) id)

lemma noAck_iff {id : Str} : NoAck c id ↔ c.migrations.lookup id = none := by
  constructor
  · intro h
    by_contra hne
    obtain ⟨p, hp⟩ := Option.ne_none_iff_exists'.mp hne
    obtain ⟨e, he⟩ := h [] (by simp) 0 p.newOwner p.toFence
    exact migrateAck_accepted hp e _ he
  · intro h turns hturns now n f
    exact migrateAck_refused (settled_later h hturns)

/-- A restart preserves the owners and the fences. It withdraws the authority that was given out
before it if and only if there was none: nobody owned an object, and no migration was pending
when the coordinator restarted in place. The bound says that the size of the map is a machine
word. -/
theorem restart_invalidates_iff (hsmall : c.objects.keys.length < 2 ^ 64) (r : Restart) :
    (r.apply c).owners = c.owners ∧ (NoLease (r.apply c) ↔ Unowned c) ∧
      ∀ id, NoAck (r.apply c) id ↔ (r.InPlace → c.migrations.lookup id = none) := by
  have howners := owners_restart hsmall r
  refine ⟨howners, ?_, fun id => ?_⟩
  · rw [noLease_iff, Unowned, Unowned, howners]
  · rw [noAck_iff]
    cases r with
    | inPlace boot => exact ⟨fun h _ => h, fun h => h trivial⟩
    | fromSnapshot order boot boot' leaseNs =>
      rw [migrations_fromSnapshot]
      exact ⟨fun _ h => h.elim, fun _ => rfl⟩

theorem restart_invalidates_iff_new :
    (NoLease ((Restart.inPlace (.lit "")).apply (new (.lit "") 0)) ↔ Unowned (new (.lit "") 0)) ∧
      ∀ id, NoAck ((Restart.inPlace (.lit "")).apply (new (.lit "") 0)) id ↔
        ((Restart.inPlace (.lit "")).InPlace → (new (.lit "") 0).migrations.lookup id = none) :=
  (restart_invalidates_iff (c := new (.lit "") 0) (by decide) (.inPlace (.lit ""))).2

/-- A node claims an object and asks for its migration, and the coordinator restarts. The fence
from before the restart is renewed at once, and the acknowledgement of the migration from before
the restart makes the new owner. -/
theorem restart_keeps_authority :
    (∀ e c', ((after (new (.lit "") 0) migratingRun).restart (.lit "x")).handle 0
      (.leaseRenew (objectId (.lit "") (.lit "") 0) 0) ≠ .error e c') ∧
    (∀ e c', ((after (new (.lit "") 0) migratingRun).restart (.lit "x")).handle 0
      (.migrateAck (objectId (.lit "") (.lit "") 0) (.lit "b") 1) ≠ .error e c') ∧
    (((after (new (.lit "") 0) migratingRun).restart (.lit "x")).handle 0
      (.migrateAck (objectId (.lit "") (.lit "") 0) (.lit "b") 1)).state.owners
        (objectId (.lit "") (.lit "") 0) = some (.lit "b", 1) := by
  have howner : ((after (new (.lit "") 0) migratingRun).restart (.lit "x")).owners
      (objectId (.lit "") (.lit "") 0) = some (.lit "a", 0) := by decide +kernel
  have hpending : ((after (new (.lit "") 0) migratingRun).restart (.lit "x")).migrations.lookup
      (objectId (.lit "") (.lit "") 0) = some ⟨.lit "b", 1⟩ := by decide +kernel
  exact ⟨leaseRenew_granted howner, migrateAck_accepted hpending, by decide +kernel⟩

end Restart

end Coordinator

end TensorCache
