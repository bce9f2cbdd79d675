import TensorCache.Coordinator.Snapshot

/-!
# What a message does to the coordinator

`Handled` lists everything a message can do, with its guard, its response and the state it leaves
behind. What holds along whole runs follows from it case by case.
-/

namespace TensorCache

open EStateM

namespace Coordinator

/-- The messages the coordinator answers without looking at its state. -/
def Idle : Message → Prop
  | .register .. | .create .. | .lookup .. | .leaseRenew .. | .migrate .. | .migrateAck .. => False
  | _ => True

/-- What handling a message does. -/
inductive Handled (now : UInt64) (c : Coordinator) :
    Message → Result Error Coordinator (List Message) → Prop
  | registered (nodeId addr : Str) :
      Handled now c (.register nodeId addr)
        (.ok [.hello c.epoch c.bootId nodeId addr c.leaseNs]
          { c with nodes := c.nodes.insert nodeId addr })
  | created (nameSpace key : Str) (generation byteLen : UInt64) (compat : Blob) (nodeId : Str)
      (h : c.objects.lookup (objectId nameSpace key generation) = none) :
      Handled now c (.create nameSpace key generation byteLen compat nodeId)
        (.ok [.createAck (objectId nameSpace key generation) c.epoch 0 nodeId]
          { c with objects :=
              c.objects.insert (objectId nameSpace key generation) ⟨nodeId, 0, c.epoch⟩ })
  | reclaimed (nameSpace key : Str) (generation byteLen : UInt64) (compat : Blob) (state : ObjectState)
      (h : c.objects.lookup (objectId nameSpace key generation) = some state) :
      Handled now c (.create nameSpace key generation byteLen compat state.owner)
        (.ok [.createAck (objectId nameSpace key generation) c.epoch state.fence state.owner] c)
  | claimRefused (nameSpace key : Str) (generation byteLen : UInt64) (compat : Blob) (nodeId : Str)
      (state : ObjectState) (h : c.objects.lookup (objectId nameSpace key generation) = some state)
      (hne : state.owner ≠ nodeId) (e : Error) :
      Handled now c (.create nameSpace key generation byteLen compat nodeId) (.error e c)
  | found (nameSpace key : Str) (generation : UInt64) (compat : Blob) (state : ObjectState)
      (h : c.objects.lookup (objectId nameSpace key generation) = some state) :
      Handled now c (.lookup nameSpace key generation compat)
        (.ok [.lookupResult true (some state.owner) (c.nodes.lookup state.owner) generation] c)
  | missing (nameSpace key : Str) (generation : UInt64) (compat : Blob)
      (h : c.objects.lookup (objectId nameSpace key generation) = none) :
      Handled now c (.lookup nameSpace key generation compat)
        (.ok [.lookupResult false none none generation] c)
  | renewed (id : Str) (state : ObjectState) (h : c.objects.lookup id = some state) :
      Handled now c (.leaseRenew id state.fence)
        (.ok [.leaseGrant id c.epoch state.fence (now + c.leaseNs)] c)
  | renewRefused (id : Str) (fence : UInt64)
      (h : ∀ state, c.objects.lookup id = some state → fence ≠ state.fence) (e : Error) :
      Handled now c (.leaseRenew id fence) (.error e c)
  | migrating (id newOwner newOwnerAddr : Str) (fence : UInt64) (state : ObjectState)
      (h : c.objects.lookup id = some state) (hfence : ¬ fence < state.fence) :
      Handled now c (.migrate id newOwner newOwnerAddr fence)
        (.ok [.migrate id newOwner ((c.nodes.lookup newOwner).getD newOwnerAddr) (state.fence + 1)]
          { c with migrations := c.migrations.insert id ⟨newOwner, state.fence + 1⟩ })
  | migrateRefused (id newOwner newOwnerAddr : Str) (fence : UInt64)
      (h : ∀ state, c.objects.lookup id = some state → fence < state.fence) (e : Error) :
      Handled now c (.migrate id newOwner newOwnerAddr fence) (.error e c)
  | migrated (id newOwner : Str) (fence : UInt64)
      (h : c.migrations.lookup id = some ⟨newOwner, fence⟩) :
      Handled now c (.migrateAck id newOwner fence)
        (.ok [] { c with
          objects := c.objects.modify id fun _ => ⟨newOwner, fence, c.epoch⟩
          migrations := c.migrations.erase id })
  | ackRefused (id newOwner : Str) (fence : UInt64)
      (h : c.migrations.lookup id ≠ some ⟨newOwner, fence⟩) (e : Error) :
      Handled now c (.migrateAck id newOwner fence) (.error e c)
  | idle (m : Message) (h : Idle m) (rs : List Message) (hrs : ∀ r ∈ rs, r.msgType = .error) :
      Handled now c m (.ok rs c)

section Cases

variable {now : UInt64} {c : Coordinator}

lemma handled_create (nameSpace key : Str) (generation byteLen : UInt64) (compat : Blob)
    (nodeId : Str) :
    Handled now c (.create nameSpace key generation byteLen compat nodeId)
      (create nameSpace key generation nodeId c) := by
  unfold create
  rw [get_bind_apply]
  cases h : c.objects.lookup (objectId nameSpace key generation) with
  | none =>
    simp only
    exact .created _ _ _ _ _ _ h
  | some state =>
    simp only
    by_cases howner : state.owner = nodeId
    · subst howner
      rw [if_pos rfl]
      exact .reclaimed _ _ _ _ _ state h
    · rw [if_neg howner]
      exact .claimRefused _ _ _ _ _ _ state h howner _

lemma handled_lookup (nameSpace key : Str) (generation : UInt64) (compat : Blob) :
    Handled now c (.lookup nameSpace key generation compat)
      (lookup nameSpace key generation c) := by
  unfold lookup
  rw [get_bind_apply]
  cases h : c.objects.lookup (objectId nameSpace key generation) with
  | none =>
    simp only
    exact .missing _ _ _ _ h
  | some state =>
    simp only
    exact .found _ _ _ _ state h

lemma handled_leaseRenew (id : Str) (fence : UInt64) :
    Handled now c (.leaseRenew id fence) (leaseRenew now id fence c) := by
  unfold leaseRenew
  rw [get_bind_apply]
  cases h : c.objects.lookup id with
  | none =>
    simp only
    exact .renewRefused id fence (by simp [h]) _
  | some state =>
    simp only
    by_cases hfence : fence = state.fence
    · subst hfence
      rw [if_neg (not_not.mpr rfl)]
      exact .renewed id state h
    · rw [if_pos hfence]
      exact .renewRefused id fence (by simpa [h] using hfence) _

lemma handled_migrate (id newOwner newOwnerAddr : Str) (fence : UInt64) :
    Handled now c (.migrate id newOwner newOwnerAddr fence)
      (migrate id newOwner newOwnerAddr fence c) := by
  unfold migrate
  rw [get_bind_apply]
  cases h : c.objects.lookup id with
  | none =>
    simp only
    exact .migrateRefused _ _ _ _ (by simp [h]) _
  | some state =>
    simp only
    by_cases hfence : fence < state.fence
    · rw [if_pos hfence]
      exact .migrateRefused _ _ _ _ (by simpa [h] using hfence) _
    · rw [if_neg hfence]
      exact .migrating _ _ _ _ state h hfence

lemma handled_migrateAck (id newOwner : Str) (fence : UInt64) :
    Handled now c (.migrateAck id newOwner fence) (migrateAck id newOwner fence c) := by
  unfold migrateAck
  rw [get_bind_apply]
  cases h : c.migrations.lookup id with
  | none =>
    simp only
    exact .ackRefused _ _ _ (by simp [h]) _
  | some pending =>
    simp only
    by_cases hpending : pending = ⟨newOwner, fence⟩
    · subst hpending
      rw [if_neg (by simp)]
      exact .migrated _ _ _ h
    · rw [if_pos]
      · exact .ackRefused _ _ _ (by simpa [h] using hpending) _
      · by_contra hne
        push Not at hne
        exact hpending (by cases pending; simp_all)

/-- Every message does one of the listed things. -/
theorem handled (now : UInt64) (m : Message) (c : Coordinator) : Handled now c m (handle now m c) := by
  cases m with
  | register nodeId addr => exact .registered nodeId addr
  | create nameSpace key generation byteLen compat nodeId => exact handled_create ..
  | lookup nameSpace key generation compat => exact handled_lookup ..
  | leaseRenew id fence => exact handled_leaseRenew ..
  | migrate id newOwner newOwnerAddr fence => exact handled_migrate ..
  | migrateAck id newOwner fence => exact handled_migrateAck ..
  | heartbeat => exact .idle _ (by trivial) [] (by simp)
  | _ => exact .idle _ (by trivial) [.error _ _] (by simp [Message.msgType])

/-- A message that is refused changes nothing. -/
lemma handle_error {m : Message} {c' : Coordinator} {e : Error} (h : handle now m c = .error e c') :
    c' = c := by
  have hcases := handled now m c
  rw [h] at hcases
  cases hcases <;> rfl

/-- A claim by the owner returns the current fence and changes nothing. -/
lemma handle_create_owner {nameSpace key nodeId : Str} {generation byteLen fence : UInt64}
    {compat : Blob}
    (h : c.owners (objectId nameSpace key generation) = some (nodeId, fence)) :
    handle now (.create nameSpace key generation byteLen compat nodeId) c
      = .ok [.createAck (objectId nameSpace key generation) c.epoch fence nodeId] c := by
  obtain ⟨state, hstate, heq⟩ := Option.map_eq_some_iff.mp h
  cases heq
  change create nameSpace key generation state.owner c = _
  unfold create
  rw [get_bind_apply]
  simp only [hstate, if_pos]
  rfl

end Cases

end Coordinator

end TensorCache
