import TensorCache.Cluster.Custody

/-!
# Replicas and migrations

What the nodes of a cluster hold, answer and migrate, in every order of steps. A replica is filled
with the bytes that its peer sends; a migration is acknowledged after the new owner has taken the
object in. So every entry of every node carries the bytes that a client stored for its object and
key, and the owner of an object holds it.
-/

namespace TensorCache

open Codec EStateM Process TensorCache.Runtime

namespace Cluster

variable {D : Deployment} {t : Task} {c : Moment} {r : Registration}

/-! ### The questions of a program -/

/-- The weakest precondition of a program in a deployment. -/
abbrev Ensures (D : Deployment) (t : Task) {α : Type} (p : Program NodeReq.Resp α)
    (Q : α → Moment → Prop) : Moment → Prop :=
  Wp (world D.traffic D.addr) (Sound D) (Onward D) t p Q

section Questions

variable {α : Type} (hD : D.Tame)

include hD

/-- A program asks something that it may ask. -/
lemma ensures_ask {q : NodeReq} {k : q.Resp → Program NodeReq.Resp α} {Q : α → Moment → Prop}
    (hfine : ∀ c₁, Onward D c c₁ → Fine D c₁.now q)
    (h : ∀ c₁, Onward D c c₁ → Sound D c₁ → ∀ x s', Does t q c₁.now x s' →
      Onward D c ⟨s', .did t q x :: c₁.past⟩ → Ensures D t (k x) Q ⟨s', .did t q x :: c₁.past⟩) :
    Ensures D t (.ask q k) Q c := by
  intro c₁ honward hsound x s' hdoes
  obtain ⟨hsound', honward'⟩ := hsound.does hD (hfine c₁ honward) hdoes
  exact ⟨hsound', honward', h c₁ honward hsound x s' hdoes (honward.trans honward')⟩

/-- A node that registers a tensor holds it. -/
lemma ensures_tcRegister (hr : r ∈ D.scope.registered) :
    Ensures D t (Node.tcRegister r) (fun x c => ∀ oid, x = .ok oid →
      D.Holds t.node r (c.now.nodes t.node)) c := by
  refine ensures_ask hD (q := .register r) (fun _ _ => hr) fun c₁ _ hsound x s' hdoes _ => ?_
  intro oid hx
  obtain ⟨o, hsafe⟩ := (hsound.caches t.node).safe
  cases hdoes with
  | register r env =>
    rw [state_register, nodes_setNode, Function.update_self]
    exact Retains.of_register hD.collisionFree hsafe (fun _ => hr) hx

/-- The entry a node is told of is that of a tensor it holds. -/
lemma ensures_tcMeta (oid : ObjectId) :
    Ensures D t (Node.tcMeta oid) (fun x c => ∀ e, x = .ok e → ∃ r,
      D.Holds t.node r (c.now.nodes t.node) ∧ r.address.objectId = oid ∧ e.address = r.address ∧
        e.compat = r.compat ∧ e.compatId = r.compat.compatId) c := by
  refine ensures_ask hD (q := .getMeta oid) (fun _ _ => trivial) fun c₁ _ hsound x s' hdoes _ => ?_
  intro e hx
  cases hdoes with
  | getMeta =>
    obtain ⟨r, -, hkey, hr⟩ := (hsound.caches t.node).holds (getMeta_eq_ok.mp hx)
    cases ObjectId.toHex_injective hkey
    exact ⟨r, hr, rfl, hr.getMeta hx⟩

/-- The entry of a tensor the node is known to hold. -/
lemma ensures_tcMeta_held (hr : D.Holds t.node r (c.now.nodes t.node)) :
    Ensures D t (Node.tcMeta r.address.objectId) (fun x _ => ∀ e, x = .ok e →
      e.address = r.address ∧ e.compat = r.compat ∧ e.compatId = r.compat.compatId) c := by
  refine ensures_ask hD (q := .getMeta _) (fun _ _ => trivial)
    fun c₁ honward hsound x s' hdoes _ => ?_
  intro e hx
  cases hdoes with
  | getMeta => exact (honward.grows _ _ hr).getMeta hx

/-- What is restored of a tensor that the node holds is its payload. -/
lemma ensures_tcRestore (hr : D.Holds t.node r (c.now.nodes t.node)) (tier : Tier) :
    Ensures D t (Node.tcRestore r.address.objectId tier)
      (fun x _ => ∀ bytes, x = .ok bytes → bytes = r.payload) c := by
  refine ensures_ask hD (q := .restore _ tier) (fun _ _ => trivial)
    fun c₁ honward hsound x s' hdoes _ => ?_
  intro bytes hx
  cases hdoes with
  | restore _ _ env => exact (honward.grows _ _ hr).restore hD.collisionFree hx

lemma ensures_send {a : Str} {m : Message} (hm : Carried D m) :
    Ensures D t (Node.send a m) (fun x c => ∀ conn, x = .ok conn → Asked c.past conn a m) c := by
  refine ensures_ask hD (q := .send a m) (fun _ _ => hm) fun c₁ _ _ x s' _ _ => ?_
  rintro conn rfl
  exact ⟨t, List.mem_cons_self⟩

/-- The answer on a connection is right for the request on it. -/
lemma ensures_receive {conn : ℕ} {a : Str} {m : Message} (hasked : Asked c.past conn a m) :
    Ensures D t (Node.receive conn) (fun x c => ∀ reply, x = .ok (some reply) →
      ∃ node rs, D.addr node = a ∧ Right D node c.now m rs ∧ reply ∈ rs) c := by
  refine ensures_ask hD (q := .receive conn) (fun _ _ => trivial)
    fun c₁ honward hsound x s' hdoes _ => ?_
  intro reply hx
  cases hdoes with
  | received _ rs _ hrs =>
    obtain ⟨node, hnode, hright⟩ := hsound.replies _ hrs a m (hasked.later honward.past)
    exact ⟨node, rs, hnode, hright, List.mem_of_head? (Except.ok.inj hx)⟩
  | receiveClosed => cases hx
  | receiveFailed => cases hx

end Questions

/-- What the relation keeps may be used again after a program. -/
lemma Ensures.frame {α : Type} {p : Program NodeReq.Resp α} {Q : α → Moment → Prop}
    (h : Ensures D t p Q c) {F : Moment → Prop} (hF : ∀ c c', Onward D c c' → F c → F c')
    (hc : F c) : Ensures D t p (fun a c => Q a c ∧ F c) c :=
  Wp.frame hF h hc

/-! ### Transfers -/

lemma decode_of_decodeKey {compat : Blob} {k : { k : CompatKey // k.encode.length < 2 ^ 64 }}
    (h : decodeKey compat = .ok k) : CompatKey.decode compat.val = .ok k.val := by
  unfold decodeKey at h
  split at h
  · cases h
  · cases h
    assumption

/-- An error is a right answer to anything. -/
lemma right_error {node : Str} {s : Cluster} {m : Message} (e : Error) :
    Right D node s m (responses (.error e)) := by
  cases m with
  | store | fetch | migrate => simp [Right, responses, Error.toMessage]
  | _ => trivial

lemma ofBytes_val {b : Bytes} (h : b.length < 2 ^ 64) : (Blob.ofBytes b).val = b := by
  rw [Blob.ofBytes_of_lt h]

section Programs

variable (hD : D.Tame)

include hD

/-- Bytes that are fetched are those of a tensor of the clients with this object id and key. -/
lemma ensures_fetchFrom (a objectId : Str) (compat : Blob) :
    Ensures D t (Node.fetchFrom a objectId compat) (fun x _ => ∀ data, x = .ok data →
      ∃ k r, CompatKey.decode compat.val = .ok k ∧ r ∈ D.scope.registered ∧
        ObjectId.fromHex objectId = .ok r.address.objectId ∧ r.compat.compatId = k.compatId ∧
        r.payload = data.val) c := by
  unfold Node.fetchFrom
  refine Wp.bindExcept (ensures_send hD (m := .fetch objectId compat) trivial)
    (fun conn c₁ hasked => ?_) fun e _ _ data h => by cases h
  refine Wp.bindExcept (ensures_receive hD (hasked conn rfl)) (fun reply c₂ hreply => ?_)
    fun e _ _ data h => by cases h
  cases reply with
  | none => exact fun data h => by cases h
  | some m =>
    obtain ⟨node, rs, -, hright, hmem⟩ := hreply m rfl
    cases m with
    | fetchReply id data crc =>
      obtain ⟨k, r, hk, hr, hoid, -, hcompat, hpayload, -⟩ := hright id data crc hmem
      change Ensures D t (if crc32c data.val ≠ crc then _ else _) _ _
      split_ifs
      · exact fun data h => by cases h
      · intro data' h
        cases h
        exact ⟨k, r, hk, hr.mem_registered, hoid, hcompat, hpayload⟩
    | _ => exact fun data h => by cases h

/-- An object is pushed to a node that acknowledges it: the node at the address holds it. -/
lemma ensures_storeTo (me : NodeInfo) (a : Str) (hr : r ∈ D.scope.registered) :
    Ensures D t (Node.storeTo me a r.address.nameSpace r.address.key r.address.generation
        (.ofBytes r.compat.encode) (.ofBytes r.payload))
      (fun x c => x = .ok ⟨⟩ → ∃ node r', D.addr node = a ∧
        D.Holds node r' (c.now.nodes node) ∧ r'.Same r) c := by
  have hcompat := ofBytes_val r.compat_small
  have hdata := ofBytes_val r.payload_small
  have hcarried : Carried D (.store r.address.nameSpace r.address.key r.address.generation
      (.ofBytes r.payload) (crc32c (Blob.ofBytes r.payload).val) (.ofBytes r.compat.encode)
      me.nodeId) := by
    intro r' haddress hk hpayload _
    refine Deployment.scope_of_same hr ⟨congrArg Address.objectId haddress, ?_,
      hpayload.trans hdata⟩
    have hencode := encode_of_decodeKey hk
    rw [hcompat] at hencode
    exact congrArg hash hencode.symm
  unfold Node.storeTo
  refine Wp.bindExcept (ensures_send hD hcarried) (fun conn c₁ hasked => ?_)
    fun e _ _ h => by cases h
  refine Wp.bindExcept (ensures_receive hD (hasked conn rfl)) (fun reply c₂ hreply => ?_)
    fun e _ _ h => by cases h
  cases reply with
  | none => exact fun h => by cases h
  | some m =>
    obtain ⟨node, rs, hnode, hright, hmem⟩ := hreply m rfl
    cases m with
    | storeAck id =>
      obtain ⟨k, r', hk, hr', hoid, -, hcompat', hpayload⟩ := hright id hmem
      rw [hcompat] at hk
      refine fun _ => ⟨node, r', hnode, hr', hoid, ?_, hpayload.trans hdata⟩
      rw [hcompat']
      exact congrArg hash (CompatKey.encode_of_decode hk).1
    | _ => exact fun h => by cases h

/-- After the local part of a store the node holds the tensor. -/
lemma ensures_storeLocally (hr : r ∈ D.scope.registered) :
    Ensures D t (Node.storeLocally r) (fun x c => x = .ok ⟨⟩ →
      ∃ r', D.Holds t.node r' (c.now.nodes t.node) ∧ r'.Same r) c := by
  unfold Node.storeLocally
  refine Wp.bindExcept (Wp.lift (ensures_tcRegister hD hr)) (fun x c₁ hx => ?_)
    fun e _ _ h => by cases h
  obtain ⟨x, hx', hheld⟩ := hx
  cases hx'
  cases x with
  | ok oid => exact fun _ => ⟨r, hheld oid rfl, .refl r⟩
  | error e =>
    cases e with
    | alreadyExists text =>
      refine Wp.bindExcept (ensures_tcMeta hD r.address.objectId) (fun e c₂ hmeta => ?_)
        fun e _ _ h => by cases h
      obtain ⟨r', hr', hoid, -, -, hcompat⟩ := hmeta e rfl
      change Ensures D t (if e.compatId ≠ r.compat.compatId then _ else _) _ _
      split_ifs with hne
      · exact fun h => by cases h
      · rw [← hoid]
        refine Wp.bindExcept ((ensures_tcRestore hD hr' .host).frame
          (fun _ _ h => h.grows t.node r') hr') (fun bytes c₃ hbytes => ?_) fun e _ _ h => by cases h
        obtain ⟨hbytes, hheld⟩ := hbytes
        change Ensures D t (if bytes ≠ r.payload then _ else _) _ _
        split_ifs with hdiffers
        · exact fun h => by cases h
        · refine fun _ => ⟨r', hheld, hoid, ?_, ?_⟩
          · rw [← hcompat]
            exact not_not.mp hne
          · rw [← hbytes bytes rfl]
            exact not_not.mp hdiffers
    | _ => exact fun h => by cases h

/-- A node claims an object that it holds. -/
lemma ensures_claim {me : NodeInfo} (hme : me.nodeId = t.node) {nameSpace key : Str}
    {generation byteLen : UInt64} {compat : Blob}
    (hr : D.Holds t.node r (c.now.nodes t.node))
    (hoid : r.address.objectId.toHex = Coordinator.objectId nameSpace key generation) :
    Ensures D t (Node.claim me nameSpace key generation byteLen compat) (fun _ _ => True) c := by
  refine ensures_ask hD (q := .coordinator (.lookup ..)) (fun _ _ _ => trivial)
    fun c₁ _ _ x s' _ honward => ?_
  rcases x with e | _ | lk
  · trivial
  · trivial
  · cases lk with
    | lookupResult found owner ownerAddr generation' =>
      cases found with
      | true => trivial
      | false =>
        refine ensures_ask hD (q := .coordinator (.create ..)) (fun c₂ honward₂ _ => ?_)
          fun c₂ _ _ x _ _ _ => ?_
        · refine ⟨r, hoid, ?_⟩
          rw [hme]
          exact honward₂.grows _ _ (honward.grows _ _ hr)
        · rcases x with e | _ | reply
          · trivial
          · trivial
          · trivial
    | _ => trivial

lemma ensures_handleStore {me : NodeInfo} (hme : me.nodeId = t.node) {nameSpace key source : Str}
    {generation : UInt64} {data : Blob} {crc : UInt32} {compat : Blob}
    (hcarried : Carried D (.store nameSpace key generation data crc compat source)) :
    Ensures D t (Node.handleStore me nameSpace key generation data crc compat)
      (fun x c => ∀ rs, x = .ok rs →
        Right D t.node c.now (.store nameSpace key generation data crc compat source) rs) c := by
  unfold Node.handleStore
  split_ifs with hcrc
  · exact fun rs h => by cases h
  · cases hkey : decodeKey compat with
    | error e => exact fun rs h => by cases h
    | ok k =>
      rw [Node.ofExcept_ok_bind]
      have hr := hcarried ⟨⟨nameSpace, key, generation⟩, k.val, data.val, data.small, k.property⟩
        rfl hkey rfl (not_not.mp hcrc)
      refine Wp.bindExcept (ensures_storeLocally hD hr) (fun _ c₁ hheld => ?_)
        fun e _ _ rs h => by cases h
      obtain ⟨r', hr', hsame⟩ := hheld rfl
      refine Wp.bindExcept ((ensures_claim hD hme hr' (congrArg ObjectId.toHex hsame.objectId)).frame
        (fun _ _ h => h.grows t.node r') hr') (fun _ c₂ hclaimed => ?_) fun e _ _ rs h => by cases h
      intro rs h id hid
      cases h
      cases List.mem_singleton.mp hid
      refine ⟨k.val, r', ?_, hclaimed.2, hsame.objectId, ?_, hsame.compatId, hsame.payload⟩
      · exact decode_of_decodeKey hkey
      · rw [hsame.objectId]

lemma ensures_handleFetch (objectId : Str) (compat : Blob) :
    Ensures D t (Node.handleFetch objectId compat) (fun x c => ∀ rs, x = .ok rs →
      Right D t.node c.now (.fetch objectId compat) rs) c := by
  unfold Node.handleFetch
  cases hhex : ObjectId.fromHex objectId with
  | error e => exact fun rs h => by cases h
  | ok oid =>
    rw [Node.ofExcept_ok_bind]
    refine Wp.bindExcept (ensures_tcMeta hD oid) (fun e c₁ hmeta => ?_) fun e _ _ rs h => by cases h
    obtain ⟨r, hr, rfl, -, -, hstored⟩ := hmeta e rfl
    cases hdecode : CompatKey.decode compat.val with
    | error e => exact fun rs h => by cases h
    | ok k =>
      change Ensures D t (if e.compatId ≠ k.compatId then _ else _) _ _
      split_ifs with hne
      · exact fun rs h => by cases h
      · refine Wp.bindExcept ((ensures_tcRestore hD hr .host).frame
          (fun _ _ h => h.grows t.node r) hr) (fun bytes c₂ hbytes => ?_) fun e _ _ rs h => by cases h
        obtain ⟨hbytes, hheld⟩ := hbytes
        cases hbytes bytes rfl
        intro rs h id data crc hid
        cases h
        cases List.mem_singleton.mp hid
        rw [ofBytes_val r.payload_small]
        exact ⟨k, r, hdecode, hheld, hhex, rfl, hstored.symm.trans (not_not.mp hne), rfl, rfl⟩

/-- A replica is filled with the bytes of the owner. -/
lemma ensures_replicateFrom (a nameSpace key : Str) (generation : UInt64) (compat : Blob) :
    Ensures D t (Node.replicateFrom a nameSpace key generation compat) (fun _ _ => True) c := by
  unfold Node.replicateFrom
  refine Wp.bindExcept (ensures_fetchFrom hD _ _ _) (fun data c₁ hdata => ?_) fun _ _ _ => trivial
  obtain ⟨k, r, hk, hr, hoid, hcompat, hpayload⟩ := hdata data rfl
  cases hkey : decodeKey compat with
  | error e => exact trivial
  | ok k' =>
    rw [Node.ofExcept_ok_bind]
    have hsame : (⟨⟨nameSpace, key, generation⟩, k'.val, data.val, data.small, k'.property⟩ :
        Registration).Same r := by
      rw [ObjectId.fromHex_toHex] at hoid
      rw [decode_of_decodeKey hkey] at hk
      cases hk
      exact ⟨Except.ok.inj hoid, hcompat.symm, hpayload.symm⟩
    refine Wp.bindExcept (Wp.lift (ensures_tcRegister hD (Deployment.scope_of_same hr hsame)))
      (fun _ _ _ => trivial) fun _ _ _ => trivial

lemma ensures_handleLookup (me : NodeInfo) (nameSpace key : Str) (generation : UInt64)
    (compat : Blob) :
    Ensures D t (Node.handleLookup me nameSpace key generation compat) (fun _ _ => True) c := by
  refine ensures_ask hD (q := .coordinator (.lookup ..)) (fun _ _ _ => trivial)
    fun c₁ _ _ x s' _ _ => ?_
  rcases x with e | _ | lk
  · trivial
  · trivial
  · cases lk with
    | lookupResult found owner ownerAddr generation =>
      cases found with
      | false => trivial
      | true =>
        change Ensures D t (if owner = some me.nodeId then _ else _) _ _
        split_ifs
        · trivial
        · cases ownerAddr with
          | none => trivial
          | some a =>
            exact Wp.bindExcept (ensures_replicateFrom hD a nameSpace key generation compat)
              (fun _ _ _ => trivial) fun _ _ _ => trivial
    | _ => trivial

/-- The coordinator's answer to a request to migrate repeats the request, and names an object. -/
lemma ensures_exchange_migrate (id newOwner newOwnerAddr : Str) (fence : UInt64) :
    Ensures D t (Node.exchange (.migrate id newOwner newOwnerAddr fence)) (fun x _ =>
      ∀ id' n a f, x = .ok (some (.migrate id' n a f)) →
        id' = id ∧ n = newOwner ∧ ∃ oid : ObjectId, id = oid.toHex) c := by
  refine ensures_ask hD (q := .coordinator _) (fun _ _ _ => trivial)
    fun c₁ _ hsound x s' hdoes _ => ?_
  rintro id' n a f rfl
  rcases does_coordinator hdoes with ⟨now, hreply, -⟩ | ⟨hne, -⟩
  · have hcases := c₁.now.coord.handled now (.migrate id newOwner newOwnerAddr fence)
    unfold Cluster.reply at hreply
    generalize c₁.now.coord.handle now (.migrate id newOwner newOwnerAddr fence) = res
      at hcases hreply
    cases hcases with
    | migrating id newOwner newOwnerAddr fence state hstate hfence =>
      cases hreply
      refine ⟨rfl, rfl, hsound.named id ?_⟩
      rw [Coordinator.owners, hstate]
      rfl
    | migrateRefused => cases hreply
    | idle m hidle => cases hidle
  · exact absurd rfl (hne _)

/-- A migration that is reported has pushed the object to a node at the address. -/
lemma ensures_migrate (me : NodeInfo) {id newOwner newOwnerAddr : Str} {fence : UInt64}
    (hcarried : Carried D (.migrate id newOwner newOwnerAddr fence)) :
    Ensures D t (Node.migrate me id newOwner newOwnerAddr fence) (fun x c => x = .ok ⟨⟩ →
      ∃ r target r', ObjectId.fromHex id = .ok r.address.objectId ∧
        D.Holds t.node r (c.now.nodes t.node) ∧ D.addr target = newOwnerAddr ∧
        D.Holds target r' (c.now.nodes target) ∧ r'.Same r) c := by
  unfold Node.migrate
  refine Wp.bindExcept (ensures_exchange_migrate hD id newOwner newOwnerAddr fence)
    (fun reply c₁ hreply => ?_) fun e _ _ h => by cases h
  rcases reply with _ | instr
  · exact fun h => by cases h
  cases instr with
  | migrate id' newOwner' a fence' =>
    obtain ⟨rfl, rfl, oid, rfl⟩ := hreply _ _ _ _ rfl
    change Ensures D t (Node.ofExcept (ObjectId.fromHex oid.toHex) >>= _ : Node PUnit) _ _
    rw [ObjectId.fromHex_toHex, Node.ofExcept_ok_bind]
    refine Wp.bindExcept (ensures_tcMeta hD oid) (fun e c₂ hmeta => ?_) fun e _ _ h => by cases h
    obtain ⟨r, hr, rfl, haddress, -, -⟩ := hmeta e rfl
    refine Wp.bindExcept ((ensures_tcMeta_held hD hr).frame (fun _ _ h => h.grows t.node r) hr)
      (fun e' c₃ hmeta' => ?_) fun e _ _ h => by cases h
    obtain ⟨hmeta', hr₃⟩ := hmeta'
    refine Wp.bindExcept ((ensures_tcRestore hD hr₃ .host).frame (fun _ _ h => h.grows t.node r) hr₃)
      (fun bytes c₄ hbytes => ?_) fun e _ _ h => by cases h
    obtain ⟨hbytes, hr₄⟩ := hbytes
    rw [haddress, (hmeta' e' rfl).2.1, hbytes bytes rfl]
    refine Wp.bindExcept ((ensures_storeTo hD me newOwnerAddr hr₄.mem_registered).frame
      (fun _ _ h => h.grows t.node r) hr₄) (fun _ c₅ hstored => ?_) fun e _ _ h => by cases h
    obtain ⟨hstored, hr₅⟩ := hstored
    obtain ⟨target, r', htarget, hr', hsame⟩ := hstored rfl
    refine ensures_ask hD (q := .notify _) (fun c₆ honward hdirected => ?_)
      fun c₆ honward _ x s' _ hafter _ => ?_
    · -- the acknowledgement names the node the object has gone to
      refine ⟨r', congrArg ObjectId.toHex hsame.objectId, ?_⟩
      have heq : target = newOwner' := hdirected.injective (htarget.trans (hcarried hdirected))
      rw [← heq]
      exact honward.grows _ _ hr'
    · exact ⟨r, target, r', rfl, hafter.grows _ _ hr₅, htarget,
        hafter.grows _ _ hr', hsame⟩
  | _ => exact fun h => by cases h

/-- A node answers a message as it should. -/
lemma ensures_handlePeer {me : NodeInfo} (hme : me.nodeId = t.node) {m : Message}
    (hcarried : Carried D m) :
    Ensures D t (Node.handlePeer me m) (fun x c => ∀ rs, x = .ok rs → Right D t.node c.now m rs)
      c := by
  cases m with
  | store nameSpace key generation data crc compat source => exact ensures_handleStore hD hme hcarried
  | fetch objectId compat => exact ensures_handleFetch hD objectId compat
  | lookup nameSpace key generation compat =>
    exact Wp.mono (fun _ _ _ _ _ => trivial) (ensures_handleLookup hD me nameSpace key generation compat)
  | migrate id newOwner newOwnerAddr fence =>
    refine Wp.bindExcept (ensures_migrate hD me hcarried) (fun _ c₁ hmigrated => ?_)
      fun e _ _ rs h => by cases h
    intro rs h id' owner fence' hid
    cases h
    cases List.mem_singleton.mp hid
    exact ⟨rfl, rfl, hmigrated rfl⟩
  | _ => exact fun _ _ => trivial

/-- The work on a message is safe. -/
lemma serve_sound {me : NodeInfo} (hme : me.nodeId = t.node) (hcarried : Carried D t.msg)
    (hwork : AtWork D t c) :
    Process.Safe (world D.traffic D.addr) (Sound D) (Onward D) t (Node.serve me t.msg) c := by
  refine Wp.bind (Wp.mono (fun x c₀ hx => ?_)
    ((ensures_handlePeer hD hme hcarried).frame (fun _ _ h hw => AtWork.onward hw h) hwork))
  obtain ⟨hright, hwork₀⟩ := hx
  intro c₁ honward hsound s' hfin
  cases hfin
  refine hsound.finish (hwork₀.onward honward) ?_
  cases x with
  | error e => exact right_error e
  | ok rs => exact (hright rs rfl).grows honward.grows

end Programs

/-! ### Runs -/

lemma system_sound (hD : D.Tame) :
    System (world D.traffic D.addr) (Sound D) (Onward D) where
  refl := Onward.refl
  trans _ _ _ := Onward.trans
  arrive c t p s' hsound harrive := by
    cases harrive with
    | client node m hm =>
      obtain ⟨hsound', honward, hwork⟩ := Sound.accept hsound node m
      exact ⟨hsound', honward, serve_sound hD rfl (carried_client hm) hwork⟩
    | peer l l' conn node m hcalls =>
      obtain ⟨hsound', honward, hwork, hcarried⟩ := Sound.acceptCall hsound hcalls
      exact ⟨hsound', honward, serve_sound hD rfl hcarried hwork⟩
  move c s' hsound hmove := Sound.move hD hsound hmove

/-- The caches of the nodes are new, each on a disk of its own. -/
def Opened (D : Deployment) (nodes : Str → Runtime) : Prop :=
  ∀ node, ∃ env extra pid, Runtime.new env (D.config node) extra ∅ pid = .ok (nodes node)

lemma sound_start (hD : D.Tame) {nodes : Str → Runtime} (hnodes : Opened D nodes) (boot : BootId)
    (leaseNs : UInt64) : Sound D (start boot leaseNs nodes).scene where
  caches node := by
    obtain ⟨env, extra, pid, hnew⟩ := hnodes node
    exact Deployment.soundCache_new hD hnew
  fresh conn a m hasked := by simp [start, Asked] at hasked
  unique conn a m a' m' hasked := by simp [start, Asked] at hasked
  calls := by simp [start]
  carried conn a m hasked := by simp [start, Asked] at hasked
  replied := by simp [start]
  replies := by simp [start]
  finished := by simp [start]
  named := by simp [start, Coordinator.owners, Coordinator.new]
  owners := by simp [start, Coordinator.owners, Coordinator.new]
  late := by simp [start]

/-- A configuration that a new cluster reaches. -/
structure Reached (D : Deployment) (c : Config Task Cluster NodeReq.Resp (List Message)) : Prop where
  tame : D.Tame
  run : ∃ boot leaseNs nodes, Opened D nodes ∧
    Steps (world D.traffic D.addr) (start boot leaseNs nodes) c

namespace Reached

variable {c c' : Config Task Cluster NodeReq.Resp (List Message)}

lemma good (h : Reached D c) : Good (world D.traffic D.addr) (Sound D) (Onward D) c := by
  obtain ⟨boot, leaseNs, nodes, hnodes, hrun⟩ := h.run
  exact ((system_sound h.tame).run_rule
    ⟨sound_start h.tame hnodes boot leaseNs, by simp [start]⟩ hrun).1

lemma sound (h : Reached D c) : Sound D c.scene := h.good.1

lemma steps (h : Reached D c) (hrun : Steps (world D.traffic D.addr) c c') :
    Reached D c' ∧ Onward D c.scene c'.scene := by
  obtain ⟨boot, leaseNs, nodes, hnodes, hrun₀⟩ := h.run
  exact ⟨⟨h.tame, boot, leaseNs, nodes, hnodes, hrun₀.trans hrun⟩,
    ((system_sound h.tame).run_rule h.good hrun).2⟩

end Reached

end Cluster

end TensorCache
