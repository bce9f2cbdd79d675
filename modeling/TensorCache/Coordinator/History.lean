import Mathlib.Data.List.Infix
import TensorCache.Coordinator.Ownership

/-!
# The history of ownership

A run of a coordinator is a list of messages it handles and restarts, newest first. The owner of
an object and its fence change only when the acknowledgement of the migration that was accepted
last is handled; the fence then rises by one. The pending migrations are exactly those that wait
for their acknowledgement.
-/

namespace TensorCache

open EStateM

namespace Coordinator

inductive Op where
  | handle (now : UInt64) (m : Message)
  | restart (boot : BootId)

namespace Op

def apply : Op → Coordinator → Coordinator
  | handle now m, c => (c.handle now m).state
  | restart boot, c => c.restart boot

end Op

/-- The coordinator after a run, newest first. -/
def after (c₀ : Coordinator) : List Op → Coordinator
  | [] => c₀
  | op :: run => op.apply (after c₀ run)

/-- The step accepts a migration of the object to `n` under the fence `f`. -/
def Accepts (c : Coordinator) (id n : Str) (f : UInt64) (op : Op) : Prop :=
  ∃ now addr fence target c', op = .handle now (.migrate id n addr fence) ∧
    c.handle now (.migrate id n addr fence) = .ok [.migrate id n target f] c'

/-- The step commits the migration of the object to `n` under the fence `f`. -/
def Commits (c : Coordinator) (id n : Str) (f : UInt64) (op : Op) : Prop :=
  ∃ now rs c', op = .handle now (.migrateAck id n f) ∧
    c.handle now (.migrateAck id n f) = .ok rs c'

/-- The migration that was accepted last is to `n` under the fence `f`, and it has not been
committed. -/
inductive Awaits (c₀ : Coordinator) (id n : Str) (f : UInt64) : List Op → Prop
  | accepted {run : List Op} {op : Op} (h : Accepts (after c₀ run) id n f op) :
      Awaits c₀ id n f (op :: run)
  | later {run : List Op} {op : Op} (h : Awaits c₀ id n f run)
      (hacc : ∀ n' f', ¬Accepts (after c₀ run) id n' f' op)
      (hcom : ∀ n' f', ¬Commits (after c₀ run) id n' f' op) : Awaits c₀ id n f (op :: run)

/-- The step handles a migration request that is accepted. -/
def Op.migrates (c : Coordinator) : Op → Bool
  | .handle now (.migrate id n addr fence) =>
    match c.handle now (.migrate id n addr fence) with
    | .ok .. => true
    | .error .. => false
  | _ => false

/-- The number of migrations accepted in a run. -/
def migrationCount (c₀ : Coordinator) : List Op → ℕ
  | [] => 0
  | op :: run => migrationCount c₀ run + if op.migrates (after c₀ run) then 1 else 0

/-! ### One step -/

/-- What a step does to one object. -/
inductive Touch (id : Str) (c c' : Coordinator) (op : Op) : Prop
  | kept (howner : c'.owners id = c.owners id)
      (hpending : c'.migrations.lookup id = c.migrations.lookup id)
      (hacc : ∀ n f, ¬Accepts c id n f op) (hcom : ∀ n f, ¬Commits c id n f op)
  | created (n : Str) (hnone : c.owners id = none) (howner : c'.owners id = some (n, 0))
      (hpending : c'.migrations.lookup id = c.migrations.lookup id)
      (hacc : ∀ n f, ¬Accepts c id n f op) (hcom : ∀ n f, ¬Commits c id n f op)
      (hclaim : ∃ now m, op = .handle now m ∧ m.msgType = .create)
  | accepted (n o : Str) (g : UInt64) (hacc : Accepts c id n (g + 1) op)
      (hmigrates : op.migrates c = true) (howner : c.owners id = some (o, g))
      (hsame : c'.owners id = c.owners id)
      (hpending : c'.migrations.lookup id = some ⟨n, g + 1⟩)
  | committed (n : Str) (f : UInt64) (hcom : Commits c id n f op)
      (hpending : c.migrations.lookup id = some ⟨n, f⟩)
      (howner : c'.owners id = (c.owners id).map fun _ => (n, f))
      (hdone : c'.migrations.lookup id = none)

section Step

variable {c : Coordinator} {id n : Str} {f : UInt64}

lemma not_accepts_of {now : UInt64} {m : Message}
    (h : ∀ addr fence target c', m = .migrate id n addr fence →
      c.handle now m ≠ .ok [.migrate id n target f] c') :
    ¬Accepts c id n f (.handle now m) := by
  rintro ⟨now', addr, fence, target, c', heq, hok⟩
  cases heq
  exact h addr fence target c' rfl hok

lemma not_commits_of {now : UInt64} {m : Message}
    (h : ∀ rs c', m = .migrateAck id n f → c.handle now m ≠ .ok rs c') :
    ¬Commits c id n f (.handle now m) := by
  rintro ⟨now', rs, c', heq, hok⟩
  cases heq
  exact h rs c' rfl hok

/-- A message does one of four things to an object. -/
lemma touch_handle (now : UInt64) (m : Message) (c : Coordinator) (id : Str) :
    Touch id c (c.handle now m).state (.handle now m) := by
  have hcases := c.handled now m
  generalize hres : c.handle now m = res at hcases
  have hacc : (∀ i n a f, m ≠ .migrate i n a f) → ∀ n f, ¬Accepts c id n f (.handle now m) :=
    fun h n f => not_accepts_of fun addr fence target c' heq => absurd heq (h id n addr fence)
  have hcom : (∀ i n f, m ≠ .migrateAck i n f) → ∀ n f, ¬Commits c id n f (.handle now m) :=
    fun h n f => not_commits_of fun rs c' heq => absurd heq (h id n f)
  cases hcases with
  | created nameSpace key generation byteLen compat nodeId h =>
    by_cases hid : id = objectId nameSpace key generation
    · subst hid
      refine .created nodeId (by simp [owners, h]) ?_ rfl (hacc (by simp)) (hcom (by simp))
        ⟨now, _, rfl, rfl⟩
      simp [owners]
    · refine .kept ?_ rfl (hacc (by simp)) (hcom (by simp))
      simp [owners, AList.lookup_insert_ne hid]
  | migrating id' newOwner newOwnerAddr fence state h hfence =>
    by_cases hid : id = id'
    · subst hid
      refine .accepted newOwner state.owner state.fence ⟨now, _, _, _, _, rfl, hres⟩ ?_
        (by simp [owners, h]) rfl (AList.lookup_insert _)
      simp only [Op.migrates, hres]
    · refine .kept rfl (AList.lookup_insert_ne hid) (fun n f => ?_) (hcom (by simp))
      refine not_accepts_of fun addr fence target c' heq => ?_
      cases heq
      exact absurd rfl hid
  | migrateRefused id' newOwner newOwnerAddr fence h e =>
    refine .kept rfl rfl (fun n f => ?_) (hcom (by simp))
    refine not_accepts_of fun addr fence target c' _ hok => ?_
    rw [hres] at hok
    cases hok
  | migrated id' newOwner fence h =>
    by_cases hid : id = id'
    · subst hid
      refine .committed newOwner fence ⟨now, _, _, rfl, hres⟩ h ?_ (AList.lookup_erase _ _)
      simp only [owners, Result.state, AList.lookup_modify_self, Option.map_map]
      rfl
    · refine .kept ?_ (AList.lookup_erase_ne hid) (hacc (by simp)) (fun n f => ?_)
      · simp [owners, AList.lookup_modify_ne hid]
      · refine not_commits_of fun rs c' heq => ?_
        cases heq
        exact absurd rfl hid
  | ackRefused id' newOwner fence h e =>
    refine .kept rfl rfl (hacc (by simp)) (fun n f => ?_)
    refine not_commits_of fun rs c' _ hok => ?_
    rw [hres] at hok
    cases hok
  | idle m hidle =>
    refine .kept rfl rfl (hacc ?_) (hcom ?_)
    · rintro i n a f rfl
      exact hidle
    · rintro i n f rfl
      exact hidle
  | _ => exact .kept rfl rfl (hacc (by simp)) (hcom (by simp))

lemma touch (op : Op) (c : Coordinator) (id : Str) : Touch id c (op.apply c) op := by
  cases op with
  | handle now m => exact touch_handle now m c id
  | restart boot =>
    refine .kept rfl rfl ?_ ?_
    · rintro n f ⟨_, _, _, _, _, heq, -⟩
      cases heq
    · rintro n f ⟨_, _, _, heq, -⟩
      cases heq

end Step

/-! ### Runs -/

/-- What holds of one object after a run: a pending migration is to the next fence, and every
fence has cost a migration. -/
structure Consistent (c : Coordinator) (count : ℕ) (id : Str) : Prop where
  pending : ∀ p, c.migrations.lookup id = some p →
    ∃ o f, c.owners id = some (o, f) ∧ p.toFence = f + 1 ∧ f.toNat + 1 ≤ count
  fence : ∀ o f, c.owners id = some (o, f) → f.toNat ≤ count

lemma toNat_succ {f : UInt64} {count : ℕ} (h : f.toNat + 1 ≤ count) (hcount : count < 2 ^ 64) :
    (f + 1).toNat = f.toNat + 1 := by
  rw [UInt64.toNat_add]
  have : (1 : UInt64).toNat = 1 := rfl
  omega

section Runs

variable {c₀ : Coordinator} {run : List Op} {id n : Str} {f : UInt64}

lemma Consistent.mono {c : Coordinator} {count count' : ℕ} (h : Consistent c count id)
    (hle : count ≤ count') : Consistent c count' id where
  pending p hp := by
    obtain ⟨o, f, howner, hfence, hcount⟩ := h.pending p hp
    exact ⟨o, f, howner, hfence, hcount.trans hle⟩
  fence o f howner := (h.fence o f howner).trans hle

lemma Consistent.step {c : Coordinator} {count : ℕ} (h : Consistent c count id)
    (hcount : count < 2 ^ 64) (op : Op) :
    Consistent (op.apply c) (count + if op.migrates c then 1 else 0) id := by
  have hle : count ≤ count + if op.migrates c then 1 else 0 := Nat.le_add_right _ _
  cases touch op c id with
  | kept howner hpending =>
    refine Consistent.mono ⟨fun p hp => ?_, fun o f hof => ?_⟩ hle
    · rw [howner]
      exact h.pending p (hpending ▸ hp)
    · exact h.fence o f (howner ▸ hof)
  | created n hnone howner hpending =>
    refine ⟨fun p hp => ?_, fun o f hof => ?_⟩
    · -- an object without an owner has no pending migration
      obtain ⟨o, f, hsome, -⟩ := h.pending p (hpending ▸ hp)
      rw [hnone] at hsome
      cases hsome
    · rw [howner] at hof
      cases hof
      exact Nat.zero_le _
  | accepted n o g hacc hmigrates howner hsame hpending =>
    rw [if_pos hmigrates]
    have hg := h.fence o g howner
    refine ⟨fun p hp => ?_, fun o' f hof => ?_⟩
    · rw [hpending] at hp
      cases hp
      exact ⟨o, g, hsame.trans howner, rfl, by omega⟩
    · rw [hsame, howner] at hof
      cases hof
      omega
  | committed n f hcom hpending howner hdone =>
    obtain ⟨o, g, hog, hfence, hg⟩ := h.pending _ hpending
    refine Consistent.mono ⟨fun p hp => ?_, fun o' f' hof => ?_⟩ hle
    · rw [hdone] at hp
      cases hp
    · rw [howner, hog] at hof
      cases hof
      rw [show f = g + 1 from hfence, toNat_succ hg hcount]
      exact hg

lemma migrationCount_cons_le (c₀ : Coordinator) (op : Op) (run : List Op) :
    migrationCount c₀ run ≤ migrationCount c₀ (op :: run) := Nat.le_add_right _ _

/-- Everything a new coordinator can reach is consistent. -/
lemma consistent_after (boot : BootId) (leaseNs : UInt64) {run : List Op}
    (hfew : migrationCount (new boot leaseNs) run < 2 ^ 64) (id : Str) :
    Consistent (after (new boot leaseNs) run) (migrationCount (new boot leaseNs) run) id := by
  induction run with
  | nil => exact ⟨fun p hp => (by cases hp), fun o f hof => (by cases hof)⟩
  | cons op run ih =>
    have hfew' := lt_of_le_of_lt (migrationCount_cons_le _ op run) hfew
    exact (ih hfew').step hfew' op

/-- The pending migrations are the ones that wait for their acknowledgement. -/
lemma awaits_iff (boot : BootId) (leaseNs : UInt64) (run : List Op) (id n : Str) (f : UInt64) :
    Awaits (new boot leaseNs) id n f run ↔
      (after (new boot leaseNs) run).migrations.lookup id = some ⟨n, f⟩ := by
  induction run with
  | nil => exact ⟨fun h => (by cases h), fun h => (by cases h)⟩
  | cons op run ih =>
    have htouch := touch op (after (new boot leaseNs) run) id
    constructor
    · intro h
      cases h with
      | accepted hacc =>
        cases htouch with
        | accepted n' o g hacc' _ _ _ hpending =>
          obtain ⟨_, _, _, _, _, rfl, hok⟩ := hacc
          obtain ⟨_, _, _, _, _, heq, hok'⟩ := hacc'
          cases heq
          rw [hok] at hok'
          cases hok'
          exact hpending
        | kept _ _ hnot => exact absurd hacc (hnot n f)
        | created _ _ _ _ hnot => exact absurd hacc (hnot n f)
        | committed n' f' hcom =>
          obtain ⟨_, _, _, _, _, rfl, -⟩ := hacc
          obtain ⟨_, _, _, heq, -⟩ := hcom
          cases heq
      | later hawaits hacc hcom =>
        cases htouch with
        | kept _ hpending => exact hpending.trans (ih.mp hawaits)
        | created _ _ _ hpending => exact hpending.trans (ih.mp hawaits)
        | accepted n' _ g hacc' => exact absurd hacc' (hacc n' (g + 1))
        | committed n' f' hcom' => exact absurd hcom' (hcom n' f')
    · intro h
      cases htouch with
      | kept _ hpending hacc hcom => exact .later (ih.mpr (hpending ▸ h)) hacc hcom
      | created _ _ _ hpending hacc hcom => exact .later (ih.mpr (hpending ▸ h)) hacc hcom
      | accepted n' _ g hacc _ _ _ hpending =>
        have hsome := hpending.symm.trans h
        cases hsome
        exact .accepted hacc
      | committed _ _ _ _ _ hdone =>
        have hsome := hdone.symm.trans h
        cases hsome

/-- An object keeps its owner and its fence, or a pending migration is committed and the fence
rises by one. -/
lemma owners_step {c : Coordinator} {count : ℕ} (h : Consistent c count id)
    (hcount : count < 2 ^ 64) (op : Op) {o : Str} (howner : c.owners id = some (o, f)) :
    (op.apply c).owners id = some (o, f) ∨
      ∃ o' f', (op.apply c).owners id = some (o', f') ∧ f'.toNat = f.toNat + 1 ∧
        Commits c id o' f' op ∧ c.migrations.lookup id = some ⟨o', f'⟩ := by
  cases touch op c id with
  | kept hsame => exact .inl (hsame.trans howner)
  | created _ hnone =>
    rw [hnone] at howner
    cases howner
  | accepted _ _ _ _ _ _ hsame => exact .inl (hsame.trans howner)
  | committed n f' hcom hpending hnew =>
    obtain ⟨o', g, hog, hfence, hg⟩ := h.pending _ hpending
    rw [howner] at hog
    cases hog
    refine .inr ⟨n, f', by rw [hnew, howner]; rfl, ?_, hcom, hpending⟩
    rw [show f' = f + 1 from hfence, toNat_succ hg hcount]

/-- Along a run the fence of an object never falls, and while it is the same so is the owner. -/
lemma owners_later (boot : BootId) (leaseNs : UInt64) (l : List Op) {run : List Op}
    (hfew : migrationCount (new boot leaseNs) (l ++ run) < 2 ^ 64) {o : Str}
    (howner : (after (new boot leaseNs) run).owners id = some (o, f)) :
    ∃ o' f', (after (new boot leaseNs) (l ++ run)).owners id = some (o', f') ∧
      f.toNat ≤ f'.toNat ∧ (f' = f → o' = o) := by
  induction l with
  | nil => exact ⟨o, f, howner, le_rfl, fun _ => rfl⟩
  | cons op l ih =>
    have hfew' := lt_of_le_of_lt (migrationCount_cons_le _ op (l ++ run)) hfew
    obtain ⟨o₁, f₁, howner₁, hle, hsame⟩ := ih hfew'
    rcases owners_step (consistent_after boot leaseNs hfew' id) hfew' op howner₁ with
      hkept | ⟨o₂, f₂, howner₂, hfence, -⟩
    · exact ⟨o₁, f₁, hkept, hle, hsame⟩
    · refine ⟨o₂, f₂, howner₂, by omega, ?_⟩
      rintro rfl
      omega

/-- Single ownership. After any run of a new coordinator with fewer than 2⁶⁴ migrations: a pending
migration is to the fence after the current one; a message that is refused changes nothing; an
object that has an owner has one after the next step too, the same with the same fence unless the
step commits the migration that was accepted last and not committed yet, and then the fence rises
by one; a committed migration is not waited for any more; and no fence of an object ever had two
owners. -/
theorem single_ownership (boot : BootId) (leaseNs : UInt64) (run : List Op)
    (hfew : migrationCount (new boot leaseNs) run < 2 ^ 64) :
    (∀ id p, (after (new boot leaseNs) run).migrations.lookup id = some p →
      ∃ o f, (after (new boot leaseNs) run).owners id = some (o, f) ∧
        p.toFence.toNat = f.toNat + 1) ∧
    (∀ now m e c', (after (new boot leaseNs) run).handle now m = .error e c' →
      c' = after (new boot leaseNs) run) ∧
    (∀ op id o f, (after (new boot leaseNs) run).owners id = some (o, f) →
      ∃ o' f', (after (new boot leaseNs) (op :: run)).owners id = some (o', f') ∧
        ((o', f') = (o, f) ∨ f'.toNat = f.toNat + 1 ∧
          Commits (after (new boot leaseNs) run) id o' f' op ∧
          Awaits (new boot leaseNs) id o' f' run)) ∧
    (∀ op id n f, Commits (after (new boot leaseNs) run) id n f op →
      ∀ n' f', ¬Awaits (new boot leaseNs) id n' f' (op :: run)) ∧
    ∀ earlier, earlier <:+ run → ∀ id o o' f,
      (after (new boot leaseNs) earlier).owners id = some (o, f) →
      (after (new boot leaseNs) run).owners id = some (o', f) → o' = o := by
  refine ⟨fun id p hp => ?_, fun now m e c' h => handle_error h, fun op id o f howner => ?_,
    fun op id n f hcom n' f' hawaits => ?_, ?_⟩
  · obtain ⟨o, f, howner, hfence, hcount⟩ := (consistent_after boot leaseNs hfew id).pending p hp
    exact ⟨o, f, howner, by rw [hfence, toNat_succ hcount hfew]⟩
  · rcases owners_step (consistent_after boot leaseNs hfew id) hfew op howner with
      hkept | ⟨o', f', howner', hfence, hcom, hpending⟩
    · exact ⟨o, f, hkept, .inl rfl⟩
    · exact ⟨o', f', howner', .inr ⟨hfence, hcom, (awaits_iff boot leaseNs run id o' f').mpr hpending⟩⟩
  · cases hawaits with
    | later _ _ hnot => exact hnot n f hcom
    | accepted hacc =>
      obtain ⟨_, _, _, _, _, rfl, -⟩ := hacc
      obtain ⟨_, _, _, heq, -⟩ := hcom
      cases heq
  · rintro earlier ⟨l, rfl⟩ id o o' f howner howner'
    obtain ⟨o₁, f₁, howner₁, -, hsame⟩ := owners_later boot leaseNs l hfew howner
    rw [howner'] at howner₁
    cases howner₁
    exact hsame rfl

/-- A node claims an object, and asks for its migration to another one. -/
def migratingRun : List Op :=
  [.handle 0 (.migrate (objectId (.lit "") (.lit "") 0) (.lit "b") (.lit "") 0),
    .handle 0 (.create (.lit "") (.lit "") 0 0 ⟨[], Vec.small_nil⟩ (.lit "a"))]

theorem single_ownership_migrating :
    migrationCount (new (.lit "") 0) migratingRun < 2 ^ 64 ∧
      (after (new (.lit "") 0) migratingRun).migrations.lookup (objectId (.lit "") (.lit "") 0)
        = some ⟨.lit "b", 1⟩ ∧
      ∃ o f, (after (new (.lit "") 0) migratingRun).owners (objectId (.lit "") (.lit "") 0)
        = some (o, f) ∧ (1 : UInt64).toNat = f.toNat + 1 := by
  have hfew : migrationCount (new (.lit "") 0) migratingRun < 2 ^ 64 := by decide +kernel
  have hpending : (after (new (.lit "") 0) migratingRun).migrations.lookup
      (objectId (.lit "") (.lit "") 0) = some ⟨.lit "b", 1⟩ := by decide +kernel
  exact ⟨hfew, hpending, (single_ownership (.lit "") 0 migratingRun hfew).1 _ _ hpending⟩

end Runs

end Coordinator

end TensorCache
