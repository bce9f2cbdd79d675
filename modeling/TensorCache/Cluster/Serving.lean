import TensorCache.Cluster.Node
import TensorCache.Cluster.Store
import TensorCache.Fidelity
import TensorCache.Runtime.Frame

/-!
# A node and its cache

One node works on one message after the other, while other connections call its cache too. What
a node keeps of an object it has taken in does not change until the object is deleted (`Retains`):
whoever fetches the object, and whoever it is migrated to, is sent the bytes, the address and the
key of the store that the node has acknowledged.
-/

namespace TensorCache

open Codec EStateM Process TensorCache.Runtime

/-- What has happened at a node: the calls of its cache, and what it has sent to peers. -/
structure Served where
  calls : List Event := []
  sent : List (Str × Message) := []

/-- How a node whose cache was `s₀` is answered. Its cache answers at a time of its own: other calls
that satisfy `A` may come first. The coordinator and the peers answer anything. -/
inductive Answers (s₀ : Runtime) (A : Event → Prop) : (r : NodeReq) → Served → r.Resp → Served → Prop
  | register (w : Served) {others : List Event} (hA : ∀ ev ∈ others, A ev) (env : Env)
      (r : Registration) : Answers s₀ A (.register r) w
        (outcome (Runtime.register env r (s₀.run (w.calls ++ others)).beginCall))
        { w with calls := w.calls ++ others ++ [⟨env, .register r⟩] }
  | getMeta (w : Served) {others : List Event} (hA : ∀ ev ∈ others, A ev) (oid : ObjectId) :
      Answers s₀ A (.getMeta oid) w ((s₀.run (w.calls ++ others)).getMeta oid)
        { w with calls := w.calls ++ others }
  | restore (w : Served) {others : List Event} (hA : ∀ ev ∈ others, A ev) (env : Env)
      (oid : ObjectId) (tier : Tier) : Answers s₀ A (.restore oid tier) w
        (outcome (Runtime.restore env oid tier (s₀.run (w.calls ++ others)).beginCall))
        { w with calls := w.calls ++ others ++ [⟨env, .restore oid tier⟩] }
  | coordinator (w : Served) (m : Message) (x : Except Error (Option Message)) :
      Answers s₀ A (.coordinator m) w x w
  | notify (w : Served) (m : Message) (x : Except Error PUnit) : Answers s₀ A (.notify m) w x w
  | send (w : Served) (addr : Str) (m : Message) (x : Except Error ℕ) :
      Answers s₀ A (.send addr m) w x { w with sent := (addr, m) :: w.sent }
  | receive (w : Served) (conn : ℕ) (x : Except Error (Option Message)) :
      Answers s₀ A (.receive conn) w x w

/-- The node has done nothing but add calls that are not `delete oid`. -/
def Served.Later (oid : ObjectId) (w w' : Served) : Prop :=
  ∃ more, w'.calls = w.calls ++ more ∧ ∀ ev ∈ more, ev.call ≠ .delete oid

variable {s₀ s : Runtime} {oid : ObjectId} {w w₁ w₂ : Served} {r : Registration} {sc : Scope}
  {config : RuntimeConfig}

/-- The calls that leave an object where it is. -/
def undeleted (oid : ObjectId) (ev : Event) : Prop := ev.call ≠ .delete oid

namespace Served.Later

lemma refl (oid : ObjectId) (w : Served) : Later oid w w := ⟨[], by simp, by simp⟩

lemma trans (h : Later oid w w₁) (h' : Later oid w₁ w₂) : Later oid w w₂ := by
  obtain ⟨more, hcalls, hmore⟩ := h
  obtain ⟨more', hcalls', hmore'⟩ := h'
  refine ⟨more ++ more', by rw [hcalls', hcalls, List.append_assoc], fun ev hev => ?_⟩
  rcases List.mem_append.mp hev with hev | hev
  · exact hmore ev hev
  · exact hmore' ev hev

lemma of_answers {q : NodeReq} {x : q.Resp} (h : Answers s₀ (undeleted oid) q w x w₁) :
    Later oid w w₁ := by
  have hone : ∀ (others : List Event) (ev : Event), (∀ ev ∈ others, undeleted oid ev) →
      ev.call ≠ .delete oid → Later oid w { w with calls := w.calls ++ others ++ [ev] } := by
    intro others ev hothers hev
    refine ⟨others ++ [ev], by simp, fun ev' hev' => ?_⟩
    rcases List.mem_append.mp hev' with hev' | hev'
    · exact hothers ev' hev'
    · rw [List.mem_singleton.mp hev']
      exact hev
  cases h with
  | register _ hA env r => exact hone _ _ hA (by simp)
  | restore _ hA env oid tier => exact hone _ _ hA (by simp)
  | getMeta _ hA oid => exact ⟨_, rfl, hA⟩
  | coordinator | notify | receive => exact refl oid w
  | send _ addr m x => exact ⟨[], by simp, by simp⟩

lemma of_runs {α : Type} {p : Program NodeReq.Resp α} {a : α}
    (h : p.Runs (Answers s₀ (undeleted oid)) w a w₁) : Later oid w w₁ :=
  h.related (refl oid) (fun _ _ _ => trans) fun _ _ _ _ hdoes => of_answers hdoes

lemma isPrefix {all : List Event} (h : Later oid w w₁) (hall : w₁.calls <+: all) :
    w.calls <+: all := by
  obtain ⟨more, hmore, -⟩ := h
  rw [hmore] at hall
  exact (List.prefix_append _ _).trans hall

end Served.Later

/-! ### What the cache retains -/

/-- The cache has an entry that stems from the registration `r`. -/
def Retains (sc : Scope) (config : RuntimeConfig) (r : Registration) (s : Runtime) : Prop :=
  ∃ o e, Safe sc config o s ∧ s.entries.lookup r.address.objectId.toHex = some e ∧
    o r.address.objectId.toHex = some r

/-- Only deleting an object takes its entry away. -/
lemma entry_extension {o : Origin} {env : Env} {c : Call} (hc : c ≠ .delete oid)
    (h : (s.entries.lookup oid.toHex).isSome) :
    Extension sc config o env c s (fun s => (s.entries.lookup oid.toHex).isSome)
      (fun s => (s.entries.lookup oid.toHex).isSome) where
  start := h
  touch s oid' f _ _ hs := isSome_lookup_modify _ f hs
  add oid' t e r s' _ _ _ _ _ heff _ := by
    rcases heff.entries with hsame | ⟨p, -, hpushed⟩
    · rw [hsame]
      exact h
    · rw [hpushed]
      exact isSome_lookup_modify _ _ h
  remove s s' oid' t _ _ hs heff := by
    rcases heff.entries with hsame | hremoved
    · rw [hsame]
      exact hs
    · rw [hremoved]
      exact isSome_lookup_modify _ _ hs
  enter r byteLen numel ps n s _ _ hs _ _ _ _ _ _ _ _ := by
    change ((s.entries.insert _ _).lookup oid.toHex).isSome
    rw [AList.lookup_insert_eq_ite]
    split_ifs
    · rfl
    · exact hs
  forget s oid' e hdelete _ hs he _ := by
    have hne : oid.toHex ≠ oid'.toHex := fun heq =>
      hc (by rw [hdelete, ObjectId.toHex_injective heq])
    rw [removeEntry, he]
    change ((s.entries.erase oid'.toHex).lookup oid.toHex).isSome
    rw [AList.lookup_erase_ne hne]
    exact hs
  clean s oid' _ _ hs _ := hs
  weaken s hs := hs

lemma Origin.record_of_ne {rs : List Registration} {k : Str} {o : Origin}
    (h : ∀ r ∈ rs, r.address.objectId.toHex ≠ k) : o.record rs k = o k := by
  induction rs generalizing o with
  | nil => rfl
  | cons r rs ih =>
    change Origin.record (Function.update o _ _) rs k = o k
    rw [ih fun r' hr' => h r' (by simp [hr']), Function.update_of_ne (Ne.symm (h r (by simp)))]

/-- A call that does not delete the object leaves its origin alone. -/
lemma Retains.exec (hS : CollisionFree sc.blocks) (h : Retains sc config r s) {ev : Event}
    (hreg : ∀ r ∈ s.registration ev, r ∈ sc.registered)
    (hev : ev.call ≠ .delete r.address.objectId) : Retains sc config r (s.exec ev) := by
  obtain ⟨o, e, hsafe, he, ho⟩ := h
  obtain ⟨hsafe', hsome⟩ := hsafe.exec_rule hS hreg (entry_extension hev (s := s.beginCall)
    (Option.isSome_iff_exists.mpr ⟨e, he⟩))
  obtain ⟨e', he'⟩ := Option.isSome_iff_exists.mp hsome
  refine ⟨_, e', hsafe', he', ?_⟩
  -- a registration in between is of another object
  rw [Origin.record_of_ne fun r' hr' heq => ?_]
  · exact ho
  · have hnone := (lookup_of_registration hr').2
    rw [heq, he] at hnone
    cases hnone

lemma Retains.run (hS : CollisionFree sc.blocks) (h : Retains sc config r s) {events : List Event}
    (hreg : ∀ r ∈ s.registrations events, r ∈ sc.registered)
    (hev : ∀ ev ∈ events, ev.call ≠ .delete r.address.objectId) :
    Retains sc config r (s.run events) := by
  induction events generalizing s with
  | nil => exact h
  | cons ev events ih =>
    refine ih (h.exec hS (fun r' hr' => hreg r' (List.mem_append_left _ hr')) (hev ev (by simp)))
      (fun r' hr' => hreg r' (List.mem_append_right _ hr')) fun ev' hev' => hev ev' (by simp [hev'])

/-- A registration that returns is retained. -/
lemma Retains.of_register (hS : CollisionFree sc.blocks) {o : Origin} (h : Safe sc config o s)
    {env : Env} (hreg : r ∈ s.registration ⟨env, .register r⟩ → r ∈ sc.registered)
    (hrun : outcome (Runtime.register env r s.beginCall) = .ok oid) :
    Retains sc config r (s.exec ⟨env, .register r⟩) := by
  cases hres : Runtime.register env r s.beginCall with
  | error err s' =>
    rw [hres] at hrun
    cases hrun
  | ok a s' =>
    have hcall : call env (.register r) s.beginCall = .ok (.registered a) s' := by
      change EStateM.bind _ _ _ = _
      simp only [EStateM.bind, hres]
      rfl
    have hrecord : s.registration ⟨env, .register r⟩ = [r] := by
      simp only [registration, hcall]
      rfl
    have hregistered : ∀ r' ∈ s.registration ⟨env, .register r⟩, r' ∈ sc.registered := by
      intro r' hr'
      rw [hrecord] at hr' hreg
      rw [List.mem_singleton.mp hr']
      exact hreg (List.mem_singleton_self r)
    have hsafe := (h.exec_rule hS hregistered (Extension.trivial sc config o env _ _)).1
    rw [hrecord] at hsafe
    have hexec : s.exec ⟨env, .register r⟩ = s' := by
      simp only [Runtime.exec, hcall]
      rfl
    obtain ⟨e, he⟩ := Option.isSome_iff_exists.mp (lookup_of_register hres)
    refine ⟨_, e, hsafe, by rw [hexec, he], ?_⟩
    exact Function.update_self _ _ _

/-- What the cache says about a retained object. -/
lemma Retains.getMeta (h : Retains sc config r s) {e : Entry}
    (he : s.getMeta r.address.objectId = .ok e) :
    e.address = r.address ∧ e.compat = r.compat ∧ e.compatId = r.compat.compatId := by
  obtain ⟨o, e', hsafe, he', ho⟩ := h
  rw [getMeta_eq_ok, he'] at he
  cases he
  have hok := hsafe.entryOk he' ho
  exact ⟨hok.address, hok.compat, hok.compatId⟩

/-- What is restored of a retained object is its payload. -/
lemma Retains.restore (hS : CollisionFree sc.blocks) (h : Retains sc config r s) {env : Env}
    {t : Tier} {bytes : Bytes}
    (hrun : outcome (Runtime.restore env r.address.objectId t s.beginCall) = .ok bytes) :
    bytes = r.payload := by
  obtain ⟨o, e, hsafe, he, ho⟩ := h
  cases hres : Runtime.restore env r.address.objectId t s.beginCall with
  | error err s' =>
    rw [hres] at hrun
    cases hrun
  | ok b s' =>
    rw [hres] at hrun
    cases hrun
    exact hsafe.beginCall.eq_of_materializePayload hS ho (materializePayload_of_restore hres)

/-! ### The life of a node -/

/-- A node whose cache was `s₀` makes the calls `all`, with registrations in the scope. -/
structure Life (sc : Scope) (config : RuntimeConfig) (s₀ : Runtime) (all : List Event) : Prop where
  collisionFree : CollisionFree sc.blocks
  safe : ∃ o, Safe sc config o s₀
  registered : ∀ r ∈ s₀.registrations all, r ∈ sc.registered

variable {all : List Event} {env : Env}

lemma Runtime.run_append (s : Runtime) (events events' : List Event) :
    s.run (events ++ events') = (s.run events).run events' :=
  List.foldl_append

namespace Life

/-- The cache is safe after any of its calls. -/
lemma safe_of_isPrefix (hlife : Life sc config s₀ all) {calls : List Event}
    (h : calls <+: all) : ∃ o, Safe sc config o (s₀.run calls) := by
  obtain ⟨o, hsafe⟩ := hlife.safe
  refine ⟨_, hsafe.run hlife.collisionFree calls fun r hr => hlife.registered r ?_⟩
  obtain ⟨rest, rfl⟩ := h
  rw [registrations_append]
  exact List.mem_append_left _ hr

lemma retains_later (hlife : Life sc config s₀ all) (hret : Retains sc config r (s₀.run w.calls))
    (hlater : w.Later r.address.objectId w₁) (h : w₁.calls <+: all) :
    Retains sc config r (s₀.run w₁.calls) := by
  obtain ⟨more, hcalls, hmore⟩ := hlater
  rw [hcalls, Runtime.run_append]
  refine hret.run hlife.collisionFree (fun r' hr' => hlife.registered r' ?_) hmore
  obtain ⟨rest, rfl⟩ := h
  rw [hcalls, List.append_assoc, registrations_append, registrations_append]
  exact List.mem_append_right _ (List.mem_append_left _ hr')

end Life

/-- A runtime that was opened after any number of sessions. -/
lemma History.life {sizes : Set ℕ} {disk : Disk} {log : List Registration}
    (hist : History sizes disk log) {extra : List Backend} {pid : ℕ}
    (hnew : Runtime.new env config extra disk pid = .ok s₀)
    (hS : CollisionFree (runScope sizes log s₀ all).blocks) :
    Life (runScope sizes log s₀ all) config s₀ all := by
  have hnone : CollisionFree (runScope sizes log s₀ []).blocks :=
    hS.mono (scopeOf_le (by simp [registrations]) subset_rfl).blocks
  obtain ⟨o, hsafe, -⟩ := hist.run_rule (Y := fun _ => True) (C := fun _ _ => True) hnew hnone trivial
    (fun _ => trivial) fun _ _ _ _ _ _ _ => trivial
  refine ⟨hS, ⟨o, ?_⟩, fun r hr => List.mem_append_right _ hr⟩
  exact (scopeOf_le (by simp [registrations]) subset_rfl).safe hsafe

section Programs

variable {A : Event → Prop} {oid' : ObjectId}

/-- Asking the cache for an entry. -/
lemma runs_tcMeta {x : Except Error Entry}
    (h : Program.Runs (Answers s₀ A) (Node.tcMeta oid') w x w₁) :
    x = (s₀.run w₁.calls).getMeta oid' := by
  cases Program.Runs.of_request (r := NodeReq.getMeta oid') h
  rfl

/-- Restoring an object: the answer belongs to a state before the call. -/
lemma runs_tcRestore {t : Tier} {x : Except Error Bytes}
    (h : Program.Runs (Answers s₀ (undeleted oid)) (Node.tcRestore oid' t) w x w₁) :
    ∃ wm env, w.Later oid wm ∧ wm.Later oid w₁ ∧
      x = outcome (Runtime.restore env oid' t (s₀.run wm.calls).beginCall) := by
  cases Program.Runs.of_request (r := NodeReq.restore oid' t) h with
  | @restore _ others hA env =>
    refine ⟨{ w with calls := w.calls ++ others }, env, ⟨others, rfl, hA⟩, ⟨_, rfl, ?_⟩, rfl⟩
    simp

/-- Registering an object. -/
lemma runs_tcRegister {x : Except Error ObjectId}
    (h : Program.Runs (Answers s₀ (undeleted oid)) (Node.tcRegister r) w x w₁) :
    ∃ wm env, w.Later oid wm ∧ w₁.calls = wm.calls ++ [⟨env, .register r⟩] ∧
      x = outcome (Runtime.register env r (s₀.run wm.calls).beginCall) := by
  cases Program.Runs.of_request (r := NodeReq.register r) h with
  | @register _ others hA env =>
    exact ⟨{ w with calls := w.calls ++ others }, env, ⟨others, rfl, hA⟩, rfl, rfl⟩

lemma runs_ofExcept {α : Type} {x y : Except Error α}
    (h : Program.Runs (Answers s₀ A) (Node.ofExcept x) w y w₁) : y = x ∧ w₁ = w :=
  Program.Runs.of_pure h

end Programs

section Retained

variable (hlife : Life sc config s₀ all) (hret : Retains sc config r (s₀.run w.calls))
  (hall : w₁.calls <+: all)

include hlife hret hall

/-- The node restores a retained object. -/
lemma tcRestore_retained {t : Tier} {bytes : Bytes}
    (h : Program.Runs (Answers s₀ (undeleted r.address.objectId))
      (Node.tcRestore r.address.objectId t) w (.ok bytes) w₁) : bytes = r.payload := by
  obtain ⟨wm, env, hbefore, hafter, hx⟩ := runs_tcRestore h
  exact (hlife.retains_later hret hbefore (hafter.isPrefix hall)).restore hlife.collisionFree
    hx.symm

/-- The node asks for the entry of a retained object. -/
lemma tcMeta_retained {e : Entry}
    (h : Program.Runs (Answers s₀ (undeleted r.address.objectId))
      (Node.tcMeta r.address.objectId) w (.ok e) w₁) :
    e.address = r.address ∧ e.compat = r.compat ∧ e.compatId = r.compat.compatId :=
  (hlife.retains_later hret (.of_runs h) hall).getMeta (runs_tcMeta h).symm

/-- The answer to a fetch of a retained object. -/
lemma handleFetch_retained {objectId : Str} {compat : Blob} {rs : List Message}
    (hoid : ObjectId.fromHex objectId = .ok r.address.objectId)
    (h : Program.Runs (Answers s₀ (undeleted r.address.objectId))
      (Node.handleFetch objectId compat) w (.ok rs) w₁) :
    rs = [.fetchReply objectId (.ofBytes r.payload) (crc32c r.payload)] := by
  unfold Node.handleFetch at h
  rw [hoid, Node.ofExcept_ok_bind] at h
  rcases Program.Runs.of_bindExcept h with ⟨_, _, hy⟩ | ⟨e, w₂, hmeta, h₁⟩
  · cases hy
  rcases Program.Runs.of_bindExcept h₁ with ⟨_, _, hy⟩ | ⟨key, w₃, hkey, h₂⟩
  · cases hy
  obtain ⟨-, rfl⟩ := runs_ofExcept hkey
  split at h₂
  · cases h₂
  rcases Program.Runs.of_bindExcept h₂ with ⟨_, _, hy⟩ | ⟨bytes, w₄, hrestore, h₃⟩
  · cases hy
  cases h₃
  have hret' := hlife.retains_later hret (.of_runs hmeta)
    ((Served.Later.of_runs hrestore).isPrefix hall)
  rw [tcRestore_retained hlife hret' hall hrestore]

end Retained

/-- After a local store that returns, the node retains an object with the same id, the same
compatibility identity and the same bytes. -/
lemma storeLocally_retains (hlife : Life sc config s₀ all) (hall : w₁.calls <+: all)
    (h : Program.Runs (Answers s₀ (undeleted r.address.objectId)) (Node.storeLocally r) w
      (.ok ⟨⟩) w₁) :
    ∃ r', Retains sc config r' (s₀.run w₁.calls) ∧
      r'.address.objectId = r.address.objectId ∧ r'.compat.compatId = r.compat.compatId ∧
      r'.payload = r.payload := by
  unfold Node.storeLocally at h
  rcases Program.Runs.of_bindExcept h with ⟨_, _, hy⟩ | ⟨x, w₂, hlift, h₁⟩
  · cases hy
  obtain ⟨x, hx, hregister⟩ := Program.Runs.of_lift hlift
  cases hx
  obtain ⟨wm, env, hbefore, hcalls, hanswer⟩ := runs_tcRegister hregister
  split at h₁
  · -- registered here
    rename_i hok
    cases h₁
    have hprefix : wm.calls <+: all := by
      rw [hcalls] at hall
      exact (List.prefix_append _ _).trans hall
    obtain ⟨o, hsafe⟩ := hlife.safe_of_isPrefix hprefix
    refine ⟨r, ?_, rfl, rfl, rfl⟩
    rw [hcalls, Runtime.run_append]
    refine Retains.of_register hlife.collisionFree hsafe (fun hr => hlife.registered r ?_)
      hanswer.symm
    obtain ⟨rest, rfl⟩ := hall
    rw [hcalls, List.append_assoc, registrations_append]
    refine List.mem_append_right _ ?_
    rw [List.singleton_append, registrations]
    exact List.mem_append_left _ hr
  · -- an object with this id is there already
    rcases Program.Runs.of_bindExcept h₁ with ⟨_, _, hy⟩ | ⟨e, w₃, hmeta, h₂⟩
    · cases hy
    dsimp only at h₂
    split at h₂
    · cases h₂
    rename_i hcompat
    rcases Program.Runs.of_bindExcept h₂ with ⟨_, _, hy⟩ | ⟨existing, w₄, hrestore, h₃⟩
    · cases hy
    split at h₃
    · cases h₃
    rename_i hsame
    cases h₃
    have hlater : w₃.Later r.address.objectId w₁ := .of_runs hrestore
    have he := (runs_tcMeta hmeta).symm
    obtain ⟨o, hsafe⟩ := hlife.safe_of_isPrefix (hlater.isPrefix hall)
    obtain ⟨r', ho, hok⟩ := hsafe.entry _ e (getMeta_eq_ok.mp he)
    have hoid : r'.address.objectId = r.address.objectId :=
      (ObjectId.toHex_injective hok.key).symm
    have hret : Retains sc config r' (s₀.run w₃.calls) := by
      refine ⟨o, e, hsafe, ?_, ?_⟩
      · rw [hoid]
        exact getMeta_eq_ok.mp he
      · rw [hoid]
        exact ho
    rw [← hoid] at hrestore hlater
    have hbytes := tcRestore_retained hlife hret hall hrestore
    refine ⟨r', hlife.retains_later hret hlater hall, hoid, ?_, ?_⟩
    · rw [← hok.compatId]
      exact not_not.mp hcompat
    · rw [← hbytes]
      exact not_not.mp hsame
  · cases h₁

/-- A node with the cache `s₀` handles a message, while the object is not deleted. -/
def Handles (s₀ : Runtime) (oid : ObjectId) (me : NodeInfo) (m : Message) (w : Served)
    (rs : List Message) (w' : Served) : Prop :=
  (Node.serve me m).Runs (Answers s₀ (undeleted oid)) w rs w'

/-- The response of a server to a message. -/
lemma Handles.handlePeer {me : NodeInfo} {m : Message} {rs : List Message}
    (h : Handles s₀ oid me m w rs w₁) :
    ∃ x, Program.Runs (Answers s₀ (undeleted oid)) (Node.handlePeer me m) w x w₁ ∧
      rs = responses x := by
  obtain ⟨x, w₂, hrun, hret⟩ := Program.Runs.of_bind h
  cases hret
  exact ⟨x, hrun, rfl⟩

/-- A node that acknowledges a store retains the object. -/
lemma Handles.store_retains (hlife : Life sc config s₀ all) (hall : w₁.calls <+: all) {me : NodeInfo}
    {nameSpace key id source : Str} {generation : UInt64} {data compat : Blob} {crc : UInt32}
    (h : Handles s₀ (Address.objectId ⟨nameSpace, key, generation⟩) me
      (.store nameSpace key generation data crc compat source) w [.storeAck id] w₁) :
    ∃ k r', CompatKey.decode compat.val = .ok k ∧ Retains sc config r' (s₀.run w₁.calls) ∧
      r'.address.objectId = Address.objectId ⟨nameSpace, key, generation⟩ ∧
      r'.compat.compatId = k.compatId ∧ r'.payload = data.val := by
  obtain ⟨x, hrun, hx⟩ := h.handlePeer
  cases x with
  | error e => cases hx
  | ok rs =>
    change Program.Runs _ (Node.handleStore me nameSpace key generation data crc compat) _ _ _ at hrun
    unfold Node.handleStore at hrun
    split at hrun
    · cases hrun
    rcases Program.Runs.of_bindExcept hrun with ⟨_, _, hy⟩ | ⟨k, w₂, hkey, h₁⟩
    · cases hy
    obtain ⟨hkey, rfl⟩ := runs_ofExcept hkey
    rcases Program.Runs.of_bindExcept h₁ with ⟨_, _, hy⟩ | ⟨_, w₃, hstore, h₂⟩
    · cases hy
    have hlater := Served.Later.of_runs h₂
    obtain ⟨r', hret, hoid, hcompat, hpayload⟩ := storeLocally_retains
      (r := ⟨⟨nameSpace, key, generation⟩, k.val, data.val, data.small, k.property⟩) hlife
      (hlater.isPrefix hall) hstore
    rw [← hoid] at hlater
    refine ⟨k.val, r', ?_, hlife.retains_later hret hlater hall, hoid, hcompat, hpayload⟩
    unfold decodeKey at hkey
    split at hkey
    · cases hkey
    · cases hkey
      assumption

/-- The reply to a fetch of a retained object, if it is not an error. -/
lemma Handles.fetch_retained (hlife : Life sc config s₀ all)
    (hret : Retains sc config r (s₀.run w.calls)) (hall : w₁.calls <+: all) {me : NodeInfo}
    {objectId : Str} {compat : Blob} {rs : List Message}
    (hoid : ObjectId.fromHex objectId = .ok r.address.objectId)
    (h : Handles s₀ r.address.objectId me (.fetch objectId compat) w rs w₁) {m : Message}
    (hm : m ∈ rs) (htype : m.msgType = .fetchReply) :
    m = .fetchReply objectId (.ofBytes r.payload) (crc32c r.payload) := by
  obtain ⟨x, hrun, rfl⟩ := h.handlePeer
  cases x with
  | error e =>
    rw [List.mem_singleton.mp hm] at htype
    cases htype
  | ok rs =>
    change m ∈ rs at hm
    rw [handleFetch_retained hlife hret hall hoid hrun] at hm
    exact List.mem_singleton.mp hm

/-! ### What a migration sends -/

/-- A question that sends nothing to a peer. -/
def NodeReq.Silent (q : NodeReq) : Prop := ∀ addr m, q ≠ .send addr m

lemma sent_of_answers {A : Event → Prop} {q : NodeReq} {x : q.Resp} (hq : q.Silent)
    (h : Answers s₀ A q w x w₁) : w₁.sent = w.sent := by
  cases h with
  | send w addr m => exact absurd rfl (hq addr m)
  | register | getMeta | restore | coordinator | notify | receive => rfl

/-- A program that sends nothing. -/
lemma sent_of_asks {A : Event → Prop} {α : Type} {Q : α → Prop} {p : Program NodeReq.Resp α} {a : α}
    (hp : p.Asks NodeReq.Silent Q) (h : p.Runs (Answers s₀ A) w a w₁) : w₁.sent = w.sent :=
  (Program.Runs.of_asks (R := fun w w' => w'.sent = w.sent) (fun _ => rfl)
    (fun w₁ w₂ w₃ (h₁ : w₂.sent = w₁.sent) (h₂ : w₃.sent = w₂.sent) => h₂.trans h₁)
    (fun _ _ _ _ hq hdoes => sent_of_answers hq hdoes) hp h).1

/-- A store is sent, if anything is. -/
lemma storeTo_sent {A : Event → Prop} {me : NodeInfo} {peerAddr nameSpace key : Str}
    {generation : UInt64} {compat data : Blob} {y : Except Error PUnit}
    (h : Program.Runs (Answers s₀ A)
      (Node.storeTo me peerAddr nameSpace key generation compat data) w y w₁) :
    w₁.sent = (peerAddr, .store nameSpace key generation data (crc32c data.val) compat me.nodeId)
      :: w.sent := by
  unfold Node.storeTo at h
  have hsend : ∀ x w₂, Program.Runs (Answers s₀ A) (Node.send peerAddr
      (.store nameSpace key generation data (crc32c data.val) compat me.nodeId)) w x w₂ →
      w₂.sent = (peerAddr,
        .store nameSpace key generation data (crc32c data.val) compat me.nodeId) :: w.sent := by
    intro x w₂ hrun
    cases Program.Runs.of_request (r := NodeReq.send peerAddr _) hrun
    rfl
  rcases Program.Runs.of_bindExcept h with ⟨_, hrun, _⟩ | ⟨conn, w₂, hrun, hrest⟩
  · exact hsend _ _ hrun
  · rw [← hsend _ _ hrun]
    refine sent_of_asks (Q := fun _ => True) ?_ hrest
    refine Program.Asks.bindExcept (Q := fun _ => True) (Program.Asks.request ?_) (fun reply _ => ?_)
      fun _ _ => trivial
    · intro addr m
      simp
    · refine Program.Asks.bindExcept (Q := fun _ => True) ?_ (fun m _ => ?_) fun _ _ => trivial
      · cases reply <;> exact trivial
      · cases m <;> exact trivial

lemma Blob.ofBytes_of_lt {b : Bytes} (h : b.length < 2 ^ 64) : Blob.ofBytes b = ⟨b, h⟩ := by
  rw [Blob.ofBytes, dif_pos h]

/-- A step of a program that sends nothing: if anything has been sent in the end, the step has
returned. -/
lemma bind_silent {A : Event → Prop} {α β : Type} {p : Node α} {f : α → Node β} {y : Except Error β}
    {x : Str × Message} (hp : Program.Asks NodeReq.Silent (fun _ => True) p)
    (h : Program.Runs (Answers s₀ A) (p >>= f : Node β) w y w₁) (hsent : x ∈ w₁.sent)
    (hnew : x ∉ w.sent) :
    ∃ a w₂, Program.Runs (Answers s₀ A) p w (.ok a) w₂ ∧
      Program.Runs (Answers s₀ A) (f a) w₂ y w₁ ∧ x ∉ w₂.sent := by
  rcases Program.Runs.of_bindExcept h with ⟨_, hrun, -⟩ | ⟨a, w₂, hrun, hrest⟩
  · rw [sent_of_asks hp hrun] at hsent
    exact absurd hsent hnew
  · refine ⟨a, w₂, hrun, hrest, ?_⟩
    rw [sent_of_asks hp hrun]
    exact hnew

/-- Whatever a migration sends of a retained object is the store of that object, in the name of the
node. -/
lemma migrate_sent (hlife : Life sc config s₀ all) (hret : Retains sc config r (s₀.run w.calls))
    (hall : w₁.calls <+: all) {me : NodeInfo} {objectId newOwner newOwnerAddr : Str}
    {fence : UInt64} {y : Except Error PUnit}
    (h : Program.Runs (Answers s₀ (undeleted r.address.objectId))
      (Node.migrate me objectId newOwner newOwnerAddr fence) w y w₁)
    {addr nameSpace key source : Str} {generation : UInt64} {data compat : Blob} {crc : UInt32}
    (hsent : (addr, .store nameSpace key generation data crc compat source) ∈ w₁.sent)
    (hnew : (addr, .store nameSpace key generation data crc compat source) ∉ w.sent)
    (hoid : r.address.objectId = Address.objectId ⟨nameSpace, key, generation⟩) :
    data.val = r.payload ∧ compat.val = r.compat.encode ∧ source = me.nodeId := by
  have hrequest : ∀ q : NodeReq, q.Silent →
      (Program.request q : Program NodeReq.Resp q.Resp).Asks NodeReq.Silent (fun _ => True) :=
    fun q hq => Program.Asks.request hq
  unfold Node.migrate at h
  obtain ⟨reply, w₂, hexchange, h₂, hnew₂⟩ :=
    bind_silent (hrequest (.coordinator _) (by simp [NodeReq.Silent])) h hsent hnew
  obtain ⟨instr, w₃, hexpect, h₃, hnew₃⟩ :=
    bind_silent (p := Node.expect _ reply) (by cases reply <;> exact trivial) h₂ hsent hnew₂
  cases instr with
  | migrate objectId' newOwner' newOwnerAddr' fence' =>
    dsimp only at h₃
    obtain ⟨oid', w₄, hfrom, h₄, hnew₄⟩ :=
      bind_silent (p := Node.ofExcept _) trivial h₃ hsent hnew₃
    obtain ⟨e, w₅, hmeta, h₅, hnew₅⟩ :=
      bind_silent (hrequest (.getMeta _) (by simp [NodeReq.Silent])) h₄ hsent hnew₄
    obtain ⟨e', w₆, hmeta', h₆, hnew₆⟩ :=
      bind_silent (hrequest (.getMeta _) (by simp [NodeReq.Silent])) h₅ hsent hnew₅
    obtain ⟨bytes, w₇, hrestore, h₇, hnew₇⟩ :=
      bind_silent (hrequest (.restore _ _) (by simp [NodeReq.Silent])) h₆ hsent hnew₆
    have hstored : w₁.sent = (newOwnerAddr, .store e.address.nameSpace e.address.key
        e.address.generation (.ofBytes bytes) (crc32c (Blob.ofBytes bytes).val)
        (.ofBytes e'.compat.encode) me.nodeId) :: w₇.sent := by
      rcases Program.Runs.of_bindExcept h₇ with ⟨_, hstore, -⟩ | ⟨_, w₈, hstore, hnotify⟩
      · exact storeTo_sent hstore
      · rw [sent_of_asks (hrequest (.notify _) (by simp [NodeReq.Silent])) hnotify]
        exact storeTo_sent hstore
    rw [hstored] at hsent
    rcases List.mem_cons.mp hsent with heq | hold
    · cases heq
      have hpre₇ := (Served.Later.of_runs h₇).isPrefix hall
      have hpre₆ := (Served.Later.of_runs hrestore).isPrefix hpre₇
      have hpre₅ := (Served.Later.of_runs hmeta').isPrefix hpre₆
      have hlater₅ : w.Later r.address.objectId w₅ :=
        (Served.Later.of_runs hexchange).trans ((Served.Later.of_runs hexpect).trans
          ((Served.Later.of_runs hfrom).trans (Served.Later.of_runs hmeta)))
      have hret₅ := hlife.retains_later hret hlater₅ hpre₅
      have hret₆ := hlife.retains_later hret₅ (.of_runs hmeta') hpre₆
      -- the object that was sent is the retained one
      obtain ⟨o, hsafe⟩ := hlife.safe_of_isPrefix hpre₅
      obtain ⟨r', -, hok⟩ := hsafe.entry _ e (getMeta_eq_ok.mp (runs_tcMeta hmeta).symm)
      have hsame : oid' = r.address.objectId := by
        rw [ObjectId.toHex_injective hok.key, ← hok.address]
        exact hoid.symm
      subst hsame
      obtain ⟨-, hcompat, -⟩ := tcMeta_retained hlife hret₅ hpre₆ hmeta'
      have hbytes := tcRestore_retained hlife hret₆ hpre₇ hrestore
      rw [hbytes, hcompat, Blob.ofBytes_of_lt r.payload_small, Blob.ofBytes_of_lt r.compat_small]
      exact ⟨rfl, rfl, rfl⟩
    · exact absurd hold hnew₇
  | _ =>
    cases h₃
    exact absurd hsent hnew₃

/-- The same for the node that handles the request to migrate. -/
lemma Handles.migrate_retained (hlife : Life sc config s₀ all)
    (hret : Retains sc config r (s₀.run w.calls)) (hall : w₁.calls <+: all) {me : NodeInfo}
    {objectId newOwner newOwnerAddr : Str} {fence : UInt64} {rs : List Message}
    (h : Handles s₀ r.address.objectId me (.migrate objectId newOwner newOwnerAddr fence) w rs w₁)
    {addr nameSpace key source : Str} {generation : UInt64} {data compat : Blob} {crc : UInt32}
    (hsent : (addr, .store nameSpace key generation data crc compat source) ∈ w₁.sent)
    (hnew : (addr, .store nameSpace key generation data crc compat source) ∉ w.sent)
    (hoid : r.address.objectId = Address.objectId ⟨nameSpace, key, generation⟩) :
    data.val = r.payload ∧ compat.val = r.compat.encode ∧ source = me.nodeId := by
  obtain ⟨x, hrun, -⟩ := h.handlePeer
  rcases Program.Runs.of_bindExcept hrun with ⟨_, hmigrate, -⟩ | ⟨_, w₂, hmigrate, hret'⟩
  · exact migrate_sent hlife hret hall hmigrate hsent hnew hoid
  · cases hret'
    exact migrate_sent hlife hret hall hmigrate hsent hnew hoid

end TensorCache
