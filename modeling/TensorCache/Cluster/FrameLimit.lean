import TensorCache.Cluster.Serving
import TensorCache.Protocol.Frame
import TensorCache.Runtime.Reachable

/-!
# What is accepted and what can be served

The limit on the body of a frame is checked by the reader only. The same object travels in three
messages, and each of them wraps it differently: the store that brought it in, the reply to a
fetch, and the store of a migration, which carries the id of the node that gives the object up.
-/

namespace TensorCache

open Codec EStateM Process Transport TensorCache.Runtime

/-! ### Sizes -/

/-- The receiver reads the message off any stream that begins with its frame. -/
def Passes (m : Message) : Prop :=
  ∀ s rest, Clean s → contents s = m.encodeFrame ++ rest →
    ∃ s', readFrame s = .ok (some (m.msgType, m.encode), s')

lemma passes_iff (m : Message) : Passes m ↔ m.encode.length ≤ maxFrame.toNat := by
  have hzero : copyAt (encodeFrame m.msgType.tag m.encode) 14 [0, 0] = m.encodeFrame := by
    rw [copyAt_encodeFrame rfl]
    rfl
  constructor
  · intro h
    have hclean : Clean (push m.encodeFrame []) := clean_push (by simp [Clean]) _
    obtain ⟨s', hread⟩ := h _ [] hclean (contents_push _ _)
    have hcase := readFrame_cases hclean
    rw [hread] at hcase
    cases hcase with
    | frame _ _ reserved _ hsmall => exact hsmall
  · intro h s rest hs hcontents
    rw [← hzero] at hcontents
    obtain ⟨s', -, -, hread⟩ := readFrame_frame hs h rfl hcontents
    exact ⟨s', hread⟩

lemma length_writer_str (s : Str) : (Writer.str s).length = 8 + s.bytes.length := by
  simp [Writer.str, Writer.bytes, Writer.u64]

lemma length_writer_blob (b : Blob) : (Writer.blob b).length = 8 + b.val.length := by
  simp [Writer.blob, Writer.bytes, Writer.u64]

lemma length_encode_store (nameSpace key source : Str) (generation : UInt64) (data compat : Blob)
    (crc : UInt32) :
    (Message.store nameSpace key generation data crc compat source).encode.length
      = 52 + nameSpace.bytes.length + key.bytes.length + data.val.length + compat.val.length
        + source.bytes.length := by
  simp only [Message.encode, List.length_append, length_writer_str, length_writer_blob, length_u32,
    Writer.u64, length_leBytes]
  omega

lemma length_encode_fetchReply (objectId : Str) (data : Blob) (crc : UInt32) :
    (Message.fetchReply objectId data crc).encode.length
      = 20 + objectId.bytes.length + data.val.length := by
  simp only [Message.encode, List.length_append, length_writer_str, length_writer_blob, length_u32]
  omega

lemma length_of_parseHexPairs {bs out : Bytes} (heven : bs.length % 2 = 0)
    (h : parseHexPairs bs = .ok out) : bs.length = 2 * out.length := by
  induction bs using parseHexPairs.induct generalizing out with
  | case1 hi lo rest ih =>
    rw [parseHexPairs] at h
    obtain ⟨a, -, h⟩ := except_bind_eq_ok h
    obtain ⟨b, -, h⟩ := except_bind_eq_ok h
    obtain ⟨out', hrest, h⟩ := except_bind_eq_ok h
    cases h
    simp only [List.length_cons] at heven ⊢
    have := ih (by omega) hrest
    omega
  | case2 bs hbs =>
    rcases bs with _ | ⟨hi, _ | ⟨lo, rest⟩⟩
    · cases h
      rfl
    · simp at heven
    · exact absurd rfl (hbs hi lo rest)

/-- An object id has 64 hexadecimal digits. -/
lemma length_of_fromHex {s : Str} {oid : ObjectId} (h : ObjectId.fromHex s = .ok oid) :
    s.bytes.length = 64 := by
  unfold ObjectId.fromHex at h
  obtain ⟨out, hparse, h⟩ := except_bind_eq_ok h
  split_ifs at h with hlen
  unfold parseHex at hparse
  split_ifs at hparse with heven
  rw [length_of_parseHexPairs (not_not.mp heven) hparse, hlen]

/-! ### The limit -/

/-- The encoded keys whose digests are compared: the one of a store, and those of registrations. -/
def comparedKeys (compat : Blob) (log : List Registration) : Set Bytes :=
  insert compat.val { b | ∃ r ∈ log, b = r.compat.encode }

/-- Whatever a node has acknowledged: a reply to a fetch of the object passes exactly if its payload
leaves room for the object id, and a store that a migration sends passes exactly if the id of the
node fits in besides what the object is made of. -/
theorem served_frames_pass_iff {sizes : Set ℕ} {disk : Disk} {log : List Registration}
    (hist : History sizes disk log) {env : Env} {config : RuntimeConfig} {extra : List Backend}
    {pid : ℕ} {s₀ : Runtime} (hnew : Runtime.new env config extra disk pid = .ok s₀)
    {me : NodeInfo} {nameSpace key source id : Str} {generation : UInt64} {data compat : Blob}
    {crc : UInt32} {w w₁ : Served}
    (hstore : Handles s₀ (Address.objectId ⟨nameSpace, key, generation⟩) me
      (.store nameSpace key generation data crc compat source) w [.storeAck id] w₁) :
    (∀ {me' : NodeInfo} {objectId : Str} {compat' : Blob} {rs : List Message} {w₂ w₃ : Served},
      ObjectId.fromHex objectId = .ok (Address.objectId ⟨nameSpace, key, generation⟩) →
      w₁.Later (Address.objectId ⟨nameSpace, key, generation⟩) w₂ →
      Handles s₀ (Address.objectId ⟨nameSpace, key, generation⟩) me' (.fetch objectId compat')
        w₂ rs w₃ →
      CollisionFree (runScope sizes log s₀ w₃.calls).blocks →
      ∀ m ∈ rs, m.msgType = .fetchReply →
        (Passes m ↔ 84 + data.val.length ≤ maxFrame.toNat)) ∧
    ∀ {me' : NodeInfo} {objectId newOwner newOwnerAddr : Str} {fence : UInt64} {rs : List Message}
      {w₂ w₃ : Served},
      w₁.Later (Address.objectId ⟨nameSpace, key, generation⟩) w₂ →
      Handles s₀ (Address.objectId ⟨nameSpace, key, generation⟩) me'
        (.migrate objectId newOwner newOwnerAddr fence) w₂ rs w₃ →
      CollisionFree (runScope sizes log s₀ w₃.calls).blocks →
      CollisionFree (comparedKeys compat (log ++ s₀.registrations w₃.calls)) →
      ∀ addr data' crc' compat' source',
        (addr, .store nameSpace key generation data' crc' compat' source') ∈ w₃.sent →
        (addr, .store nameSpace key generation data' crc' compat' source') ∉ w₂.sent →
        (Passes (.store nameSpace key generation data' crc' compat' source') ↔
          52 + nameSpace.bytes.length + key.bytes.length + data.val.length + compat.val.length
            + me'.nodeId.bytes.length ≤ maxFrame.toNat) := by
  constructor
  · intro me' objectId compat' rs w₂ w₃ hoid hlater hfetch hS m hm htype
    have hlife := hist.life hnew hS
    have hpre₂ : w₂.calls <+: w₃.calls := (Served.Later.of_runs hfetch).isPrefix List.prefix_rfl
    obtain ⟨k, r, -, hret, hsame, -, hpayload⟩ :=
      hstore.store_retains hlife (hlater.isPrefix hpre₂)
    rw [← hsame] at hoid hlater hfetch
    have hret₂ := hlife.retains_later hret hlater hpre₂
    rw [hfetch.fetch_retained hlife hret₂ List.prefix_rfl hoid hm htype, passes_iff,
      length_encode_fetchReply, length_of_fromHex hoid, Blob.ofBytes_of_lt r.payload_small,
      ← hpayload]
  · intro me' objectId newOwner newOwnerAddr fence rs w₂ w₃ hlater hmigrate hS hkeys addr data' crc'
      compat' source' hsent hnew'
    have hlife := hist.life hnew hS
    have hpre₂ : w₂.calls <+: w₃.calls := (Served.Later.of_runs hmigrate).isPrefix List.prefix_rfl
    obtain ⟨k, r, hk, hret, hsame, hcompat, hpayload⟩ :=
      hstore.store_retains hlife (hlater.isPrefix hpre₂)
    have hcanon := (CompatKey.encode_of_decode hk).1
    rw [← hsame] at hlater hmigrate
    have hret₂ := hlife.retains_later hret hlater hpre₂
    obtain ⟨hdata, hcompat', rfl⟩ :=
      hmigrate.migrate_retained hlife hret₂ List.prefix_rfl hsent hnew' hsame
    -- equal identities are those of equal keys
    have hkey : r.compat.encode = compat.val := by
      obtain ⟨o, e, hsafe, he, ho⟩ := hret
      refine hkeys (Or.inr ⟨r, (hsafe.entryOk he ho).registered, rfl⟩) (Or.inl rfl) ?_
      rw [← hcanon]
      exact hcompat
    rw [passes_iff, length_encode_store, hdata, hpayload, hcompat', hkey]

/-! ### A store and a fetch that nothing comes between -/

section Alone

variable {s₀ : Runtime} {r : Registration} {w : Served} {oid : ObjectId}

/-- A store of a tensor that the cache takes in, of an object that nobody owns. -/
lemma handles_store (me : NodeInfo) (source : Str)
    (hvalid : r.compat.layout.validate r.compat.shape = .ok ())
    (hreg : outcome (Runtime.register {} r (s₀.run w.calls).beginCall) = .ok oid) :
    Handles s₀ r.address.objectId me (Cluster.storeMessage r source) w
      [.storeAck r.address.objectId.toHex] { w with calls := w.calls ++ [⟨{}, .register r⟩] } := by
  have hserve : Node.serve me (Cluster.storeMessage r source) =
      (do
        let x ← ExceptT.run (Node.handleStore me r.address.nameSpace r.address.key
          r.address.generation ⟨r.payload, r.payload_small⟩ (crc32c r.payload)
          ⟨r.compat.encode, r.compat_small⟩)
        pure (responses x)) := rfl
  unfold Handles
  rw [hserve, Cluster.handleStore_eq _ hvalid]
  have hregister := @Answers.register s₀ (undeleted r.address.objectId) w [] (by simp) {} r
  rw [List.append_nil, hreg] at hregister
  refine Program.Runs.ask hregister ?_
  refine Program.Runs.ask (x := .ok (some (.lookupResult false none none r.address.generation)))
    (.coordinator _ _ _) ?_
  refine Program.Runs.ask
    (x := .ok (some (.createAck r.address.objectId.toHex 0 1 me.nodeId))) (.coordinator _ _ _) ?_
  exact Program.Runs.ret _ _

/-- A fetch with the key of the object. -/
lemma handles_fetch (me : NodeInfo) {e : Entry} {bytes : Bytes}
    (hvalid : r.compat.layout.validate r.compat.shape = .ok ())
    (hmeta : (s₀.run w.calls).getMeta r.address.objectId = .ok e)
    (hcompat : e.compatId = r.compat.compatId)
    (hrestore : outcome (Runtime.restore {} r.address.objectId .host
      (s₀.run w.calls).beginCall) = .ok bytes) :
    Handles s₀ r.address.objectId me
      (.fetch r.address.objectId.toHex ⟨r.compat.encode, r.compat_small⟩) w
      [.fetchReply r.address.objectId.toHex (.ofBytes bytes) (crc32c bytes)]
      { w with calls := w.calls ++ [⟨{}, .restore r.address.objectId .host⟩] } := by
  have hfetch : Node.handleFetch r.address.objectId.toHex ⟨r.compat.encode, r.compat_small⟩ = (do
      let e ← Node.tcMeta r.address.objectId
      if e.compatId ≠ r.compat.compatId then
        throw (.compatibility s!"object {r.address.objectId.toHex.val} is not compatible with request")
      else do
        let bytes ← Node.tcRestore r.address.objectId .host
        pure [.fetchReply r.address.objectId.toHex (.ofBytes bytes) (crc32c bytes)]) := by
    unfold Node.handleFetch
    rw [ObjectId.fromHex_toHex, Node.ofExcept_ok_bind]
    simp only [CompatKey.decode_encode hvalid, Node.ofExcept_ok_bind]
  have hget := @Answers.getMeta s₀ (undeleted r.address.objectId) w [] (by simp)
    r.address.objectId
  have hread := @Answers.restore s₀ (undeleted r.address.objectId) w [] (by simp) {}
    r.address.objectId .host
  rw [List.append_nil, hmeta] at hget
  rw [List.append_nil, hrestore] at hread
  refine Program.Runs.bind (a := .ok [.fetchReply r.address.objectId.toHex (.ofBytes bytes)
    (crc32c bytes)]) ?_ (.ret _ _)
  change Program.Runs _ (Node.handleFetch _ _) _ _ _
  rw [hfetch]
  refine Program.Runs.bind (Program.Runs.ask hget (.ret _ _)) ?_
  change Program.Runs _ (if e.compatId ≠ r.compat.compatId then _ else _ : Node _) _ _ _
  rw [if_neg (not_not.mpr hcompat)]
  exact Program.Runs.ask hread (.ret _ _)

/-- A migration that the coordinator agrees to, and that the new owner acknowledges. -/
lemma handles_migrate (me : NodeInfo) (newOwner newOwnerAddr : Str) (fence : UInt64) {e : Entry}
    (hmeta : (s₀.run w.calls).getMeta r.address.objectId = .ok e)
    (haddress : e.address = r.address) (hcompat : e.compat = r.compat)
    (hrestore : outcome (Runtime.restore {} r.address.objectId .host
      (s₀.run w.calls).beginCall) = .ok r.payload) :
    Handles s₀ r.address.objectId me
      (.migrate r.address.objectId.toHex newOwner newOwnerAddr fence) w
      [.migrateAck r.address.objectId.toHex newOwner fence]
      ⟨w.calls ++ [⟨{}, .restore r.address.objectId .host⟩],
        (newOwnerAddr, Cluster.storeMessage r me.nodeId) :: w.sent⟩ := by
  have hget := @Answers.getMeta s₀ (undeleted r.address.objectId) w [] (by simp)
    r.address.objectId
  have hread := @Answers.restore s₀ (undeleted r.address.objectId) w [] (by simp) {}
    r.address.objectId .host
  rw [List.append_nil, hmeta] at hget
  rw [List.append_nil, hrestore] at hread
  have hstored : Program.Runs (Answers s₀ (undeleted r.address.objectId))
      (Node.storeTo me newOwnerAddr e.address.nameSpace e.address.key e.address.generation
        (.ofBytes e.compat.encode) (.ofBytes r.payload))
      ⟨w.calls ++ [⟨{}, .restore r.address.objectId .host⟩], w.sent⟩ (.ok ⟨⟩)
      ⟨w.calls ++ [⟨{}, .restore r.address.objectId .host⟩],
        (newOwnerAddr, Cluster.storeMessage r me.nodeId) :: w.sent⟩ := by
    rw [haddress, hcompat, Blob.ofBytes_of_lt r.payload_small, Blob.ofBytes_of_lt r.compat_small]
    refine Program.Runs.ask (.send _ _ _ (.ok 0)) ?_
    exact Program.Runs.ask (.receive _ _ (.ok (some (.storeAck r.address.objectId.toHex))))
      (.ret _ _)
  have hmigrate : Program.Runs (Answers s₀ (undeleted r.address.objectId))
      (Node.migrate me r.address.objectId.toHex newOwner newOwnerAddr fence) w (.ok ⟨⟩)
      ⟨w.calls ++ [⟨{}, .restore r.address.objectId .host⟩],
        (newOwnerAddr, Cluster.storeMessage r me.nodeId) :: w.sent⟩ := by
    refine Program.Runs.ask (.coordinator _ _ (.ok (some
      (.migrate r.address.objectId.toHex newOwner newOwnerAddr fence)))) ?_
    change Program.Runs _ (Node.ofExcept (ObjectId.fromHex r.address.objectId.toHex) >>= _ : Node _)
      _ _ _
    rw [ObjectId.fromHex_toHex, Node.ofExcept_ok_bind]
    refine Program.Runs.bind (Program.Runs.ask hget (.ret _ _)) ?_
    refine Program.Runs.bind (Program.Runs.ask hget (.ret _ _)) ?_
    refine Program.Runs.bind (Program.Runs.ask hread (.ret _ _)) ?_
    refine Program.Runs.bind hstored ?_
    exact Program.Runs.ask (.notify _ _ (.ok ⟨⟩)) (.ret _ _)
  exact Program.Runs.bind (Program.Runs.bind hmigrate (.ret _ _)) (.ret _ _)

/-- What a registration has to meet. -/
lemma registerCheck_eq_ok {s : Runtime} {byteLen numel : UInt64} {blocks : List BlockRef}
    (hshape : r.compat.shape.byteLen r.compat.dtype.byteSize = .ok byteLen)
    (hlen : byteLen = UInt64.ofNat r.payload.length) (hnumel : r.compat.shape.numel = .ok numel)
    (hchunk : chunk r.payload s.config.blockSize.toNat = .ok blocks)
    (hnone : s.entries.lookup r.address.objectId.toHex = none)
    (hadmitted : evaluateIgnoringCapacity s.config.admission
      ⟨byteLen.toNat, s.config.cost.reconstructCostNs byteLen.toNat,
        s.config.cost.reconstructCostNs byteLen.toNat⟩ s.accounting = .admitted) :
    s.registerCheck r = .ok (byteLen, numel, blocks) := by
  obtain ⟨hrefs, htiles⟩ := chunk_spec hchunk
  have hvalid : validateBlockList blocks byteLen = .ok () := by
    rw [hrefs, hlen]
    exact validateBlockList_tiles htiles r.payload_small
  unfold registerCheck
  rw [hshape]
  change (if byteLen ≠ _ then _ else _) = _
  rw [if_neg (not_not.mpr hlen), hnumel]
  change (chunk r.payload s.config.blockSize.toNat >>= _) = _
  rw [hchunk]
  change (validateBlockList blocks byteLen >>= _) = _
  rw [hvalid]
  change (if (s.entries.lookup r.address.objectId.toHex).isSome then _ else _) = _
  rw [hnone, if_neg (by simp), hadmitted]

/-- A runtime on an empty directory takes a tensor in and gives it back. -/
lemma register_then_restore {config : RuntimeConfig}
    (hnew : Runtime.new {} config [] ∅ 0 = .ok s₀) {byteLen numel : UInt64} {blocks : List BlockRef}
    (hcheck : s₀.beginCall.registerCheck r = .ok (byteLen, numel, blocks))
    (hfits : r.payload.length ≤ s₀.accounting.free .host)
    (hS : CollisionFree (runScope ∅ [] s₀ [⟨{}, .register r⟩]).blocks) :
    outcome (Runtime.register {} r s₀.beginCall) = .ok r.address.objectId ∧
      ∃ e, (s₀.run [⟨{}, .register r⟩]).getMeta r.address.objectId = .ok e ∧
        e.address = r.address ∧ e.compat = r.compat ∧ e.compatId = r.compat.compatId ∧
        outcome (Runtime.restore {} r.address.objectId .host
          (s₀.run [⟨{}, .register r⟩]).beginCall) = .ok r.payload := by
  have hledger : Ledger s₀.beginCall := by
    have h := (Reachable.new hnew).ledger
    exact ⟨h.budget, h.reserved⟩
  have hfits' : newBytes s₀.beginCall.host.contains blocks ≤ s₀.beginCall.accounting.free .host := by
    obtain ⟨hrefs, htiles⟩ := chunk_spec (registerCheck_ok hcheck).2.2.2.1
    have hle := newBytes_le s₀.beginCall.host.contains
      (pieces r.payload s₀.beginCall.config.blockSize.toNat) 0
    rw [htiles.flatten] at hle
    rw [hrefs]
    exact hle.trans hfits
  obtain ⟨s', acquired, hrun, hlook⟩ := hledger.register_returns hcheck hfits' {}
  have hreg : outcome (Runtime.register {} r s₀.beginCall) = .ok r.address.objectId := by
    rw [hrun]
    rfl
  have hexec : s₀.run [⟨{}, .register r⟩] = s' := by
    change (EStateM.bind (Runtime.register {} r) _ s₀.beginCall).state = s'
    simp only [EStateM.bind, hrun]
    rfl
  have hist : History ∅ ∅ [] := History.empty
  have hlife := hist.life hnew hS
  obtain ⟨o, e, hsafe, he, ho⟩ : Retains _ config r (s₀.run [⟨{}, .register r⟩]) := by
    obtain ⟨o, hsafe⟩ := hlife.safe
    refine Retains.of_register hS hsafe (fun hr => ?_) hreg
    exact hlife.registered r (List.mem_append_left _ hr)
  rw [hexec] at hsafe he
  rw [hlook] at he
  cases he
  have hread : Readable s' := by
    have hfiles := hist.files hS (by simp) (Set.empty_subset _)
    have hsize : config.blockSize.toNat ∈ (runScope ∅ [] s₀ [⟨{}, .register r⟩]).sizes := by
      rw [← config_of_new hnew]
      exact Set.mem_insert _ _
    have hcut : ManifestsCutWith config.blockSize.toNat [] ∅ := by
      intro path c m hc
      simp at hc
    obtain ⟨hfresh, o₀, hsafe₀⟩ := TensorCache.new_spec hS hfiles hsize hnew
    rw [← hexec]
    exact hsafe₀.run_cutWith hS hfresh.readable (hcut.cutWith hS hfiles (by simp) hnew) _
      hlife.registered
  have hresident : Tier.host ∈ (newEntry {} r byteLen numel blocks acquired).placementTiers := by
    simp [newEntry, Entry.placementTiers, Placement.tier]
  have hrestore : Runtime.restore {} r.address.objectId .host s'.beginCall = .ok r.payload _ :=
    hsafe.beginCall.restore_resident hS hread.beginCall hlook ho hresident
  refine ⟨hreg, newEntry {} r byteLen numel blocks acquired, ?_, rfl, rfl, rfl, ?_⟩
  · rw [hexec]
    exact getMeta_eq_ok.mpr hlook
  · rw [hexec, hrestore]
    rfl

/-- A payload that fits one block is its only piece. -/
lemma pieces_of_le {p : Bytes} {blockSize : ℕ} (hpos : 0 < blockSize) (hp : p ≠ [])
    (h : p.length ≤ blockSize) : pieces p blockSize = [p] := by
  have hchunk := chunk_of_le hpos h
  rw [if_neg hp] at hchunk
  obtain ⟨hrefs, htiles⟩ := chunk_spec hchunk
  have hlen : (pieces p blockSize).length = 1 := by
    rw [← length_refsFrom 0, ← hrefs]
    rfl
  obtain ⟨b, hb⟩ := List.length_eq_one_iff.mp hlen
  have hflat := htiles.flatten
  rw [hb, List.flatten_singleton] at hflat
  rw [hb, hflat]

/-- One payload of one block has no collisions. -/
lemma collisionFree_one (hpos : 0 < s₀.config.blockSize.toNat) (hp : r.payload ≠ [])
    (h : r.payload.length ≤ s₀.config.blockSize.toNat) {events : List Event}
    (hreg : s₀.registrations events ⊆ [r]) : CollisionFree (runScope ∅ [] s₀ events).blocks := by
  have hone : ∀ b ∈ (runScope ∅ [] s₀ events).blocks, b = r.payload := by
    rintro b ⟨r', hr', n, hn, hb⟩
    cases List.mem_singleton.mp (hreg hr')
    rcases hn with rfl | hn
    · rw [pieces_of_le hpos hp h] at hb
      exact List.mem_singleton.mp hb
    · cases hn
  intro b hb b' hb' _
  rw [hone b hb, hone b' hb']

lemma collisionFree_comparedKeys {log : List Registration} (hlog : log ⊆ [r]) :
    CollisionFree (comparedKeys ⟨r.compat.encode, r.compat_small⟩ log) := by
  have hone : ∀ b ∈ comparedKeys ⟨r.compat.encode, r.compat_small⟩ log, b = r.compat.encode := by
    rintro b (rfl | ⟨r', hr', rfl⟩)
    · rfl
    · rw [List.mem_singleton.mp (hlog hr')]
  intro b hb b' hb' _
  rw [hone b hb, hone b' hb']

end Alone

theorem served_frames_pass_bytePair :
    ∃ s₀ w₁ w₂ w₃, Runtime.new {} smallConfig [] ∅ 0 = .ok s₀ ∧
      Handles s₀ (bytePair 0 1 2).address.objectId ⟨.lit "n", .lit "a"⟩
        (Cluster.storeMessage (bytePair 0 1 2) (.lit "")) {}
        [.storeAck (bytePair 0 1 2).address.objectId.toHex] w₁ ∧
      Handles s₀ (bytePair 0 1 2).address.objectId ⟨.lit "n", .lit "a"⟩
        (.fetch (bytePair 0 1 2).address.objectId.toHex
          ⟨(bytePair 0 1 2).compat.encode, (bytePair 0 1 2).compat_small⟩) w₁
        [.fetchReply (bytePair 0 1 2).address.objectId.toHex (.ofBytes (bytePair 0 1 2).payload)
          (crc32c (bytePair 0 1 2).payload)] w₂ ∧
      Passes (.fetchReply (bytePair 0 1 2).address.objectId.toHex
        (.ofBytes (bytePair 0 1 2).payload) (crc32c (bytePair 0 1 2).payload)) ∧
      Handles s₀ (bytePair 0 1 2).address.objectId ⟨.lit "n", .lit "a"⟩
        (.migrate (bytePair 0 1 2).address.objectId.toHex (.lit "m") (.lit "b") 1) w₁
        [.migrateAck (bytePair 0 1 2).address.objectId.toHex (.lit "m") 1] w₃ ∧
      w₃.sent = [(.lit "b", Cluster.storeMessage (bytePair 0 1 2) (.lit "n"))] ∧
      Passes (Cluster.storeMessage (bytePair 0 1 2) (.lit "n")) := by
  have hnew : Runtime.new {} smallConfig [] ∅ 0 = .ok (initial smallConfig [] none) := rfl
  have hist : History ∅ ∅ [] := History.empty
  have hvalid : (bytePair 0 1 2).compat.layout.validate (bytePair 0 1 2).compat.shape = .ok () := by
    decide
  have hcheck : (initial smallConfig [] none).beginCall.registerCheck (bytePair 0 1 2)
      = .ok (2, 2, [blockRef (bytePair 0 1 2).payload 0]) :=
    registerCheck_eq_ok (by decide) (by decide) (by decide) (by decide +kernel) rfl (by decide)
  have hfree : ∀ {events : List Event},
      (initial smallConfig [] none).registrations events ⊆ [bytePair 0 1 2] →
      CollisionFree (runScope ∅ [] (initial smallConfig [] none) events).blocks := fun hreg =>
    collisionFree_one (by decide) (by decide) (by decide) hreg
  obtain ⟨hreg, e, hmeta, haddress, hcompat, hid, hrestore⟩ := register_then_restore hnew hcheck
    (by decide) (hfree (registrations_subset _ [⟨{}, .register (bytePair 0 1 2)⟩]))
  have hstore := handles_store (w := {}) ⟨.lit "n", .lit "a"⟩ (.lit "") hvalid hreg
  have hfetch := handles_fetch (w := ⟨[⟨{}, .register (bytePair 0 1 2)⟩], []⟩)
    ⟨.lit "n", .lit "a"⟩ hvalid hmeta hid hrestore
  have hmigrate := handles_migrate (w := ⟨[⟨{}, .register (bytePair 0 1 2)⟩], []⟩)
    ⟨.lit "n", .lit "a"⟩ (.lit "m") (.lit "b") 1 hmeta haddress hcompat hrestore
  refine ⟨_, _, _, _, hnew, hstore, hfetch, ?_, hmigrate, rfl, ?_⟩
  · refine ((served_frames_pass_iff hist hnew hstore).1 (ObjectId.fromHex_toHex _) (.refl _ _)
      hfetch ?_ _ (List.mem_singleton.mpr rfl) rfl).mpr (by decide)
    exact hfree (registrations_subset _ [⟨{}, .register (bytePair 0 1 2)⟩,
      ⟨{}, .restore (bytePair 0 1 2).address.objectId .host⟩])
  · refine ((served_frames_pass_iff hist hnew hstore).2 (.refl _ _) hmigrate ?_ ?_ (.lit "b") _ _ _ _
      (List.mem_singleton.mpr rfl) (by simp)).mpr (by decide)
    · exact hfree (registrations_subset _ [⟨{}, .register (bytePair 0 1 2)⟩,
        ⟨{}, .restore (bytePair 0 1 2).address.objectId .host⟩])
    · exact collisionFree_comparedKeys (registrations_subset _ [⟨{}, .register (bytePair 0 1 2)⟩,
        ⟨{}, .restore (bytePair 0 1 2).address.objectId .host⟩])

/-! ### A store that fills its frame -/

/-- A runtime whose blocks are larger than any frame. -/
def wideConfig : RuntimeConfig := { blockSize := 134217728 }

def wideKey : CompatKey := { dtype := .u8, shape := ⟨[67108784], by decide, by simp [maxDim]⟩ }

section Wide

variable {r : Registration} (hcompat : r.compat = wideKey) (hlen : r.payload.length = 67108784)
include hcompat hlen

omit hcompat in
lemma payload_ne_nil : r.payload ≠ [] := by
  intro hnil
  rw [hnil, List.length_nil] at hlen
  omega

lemma registerCheck_wide : (initial wideConfig [] none).beginCall.registerCheck r
    = .ok (67108784, 67108784, [blockRef r.payload 0]) := by
  refine registerCheck_eq_ok ?_ ?_ ?_ ?_ rfl (by decide)
  · rw [hcompat]
    decide
  · rw [hlen]
    rfl
  · rw [hcompat]
    decide
  · have hle : r.payload.length ≤ 134217728 := by
      rw [hlen]
      norm_num
    have hchunk := chunk_of_le (by norm_num) hle
    rw [if_neg (payload_ne_nil hlen)] at hchunk
    exact hchunk

omit hcompat in
lemma collisionFree_wide : CollisionFree (runScope ∅ [] (initial wideConfig [] none)
    [⟨{}, .register r⟩]).blocks := by
  refine collisionFree_one (r := r) ?_ (payload_ne_nil hlen) ?_ ?_
  · decide
  · rw [hlen]
    decide
  · exact registrations_subset _ [⟨{}, .register r⟩]

lemma passes_wide (haddress : r.address = ⟨.lit "", .lit "", 0⟩) :
    Passes (Cluster.storeMessage r (.lit "")) := by
  have hkey : r.compat.encode.length = 28 := by
    rw [hcompat]
    decide
  rw [passes_iff, Cluster.storeMessage, length_encode_store, hlen, hkey, haddress]
  decide

omit hcompat in
lemma not_passes_wide : ¬Passes
    (.fetchReply r.address.objectId.toHex (.ofBytes r.payload) (crc32c r.payload)) := by
  rw [passes_iff, length_encode_fetchReply, Blob.ofBytes_of_lt r.payload_small, hlen,
    length_of_fromHex (ObjectId.fromHex_toHex _)]
  decide

lemma handles_wide (me : NodeInfo) :
    Handles (initial wideConfig [] none) r.address.objectId me (Cluster.storeMessage r (.lit "")) {}
        [.storeAck r.address.objectId.toHex] ⟨[⟨{}, .register r⟩], []⟩ ∧
      Handles (initial wideConfig [] none) r.address.objectId me
        (.fetch r.address.objectId.toHex ⟨r.compat.encode, r.compat_small⟩)
        ⟨[⟨{}, .register r⟩], []⟩
        [.fetchReply r.address.objectId.toHex (.ofBytes r.payload) (crc32c r.payload)]
        ⟨[⟨{}, .register r⟩, ⟨{}, .restore r.address.objectId .host⟩], []⟩ := by
  have hnew : Runtime.new {} wideConfig [] ∅ 0 = .ok (initial wideConfig [] none) := rfl
  have hvalid : r.compat.layout.validate r.compat.shape = .ok () := by
    rw [hcompat]
    decide
  have hfits : r.payload.length ≤ (initial wideConfig [] none).accounting.free .host := by
    rw [hlen]
    decide
  obtain ⟨hreg, e, hmeta, -, -, hid, hrestore⟩ := register_then_restore hnew
    (registerCheck_wide hcompat hlen) hfits (collisionFree_wide hlen)
  exact ⟨handles_store me (.lit "") hvalid hreg, handles_fetch me hvalid hmeta hid hrestore⟩

end Wide

def zeros (n : ℕ) : Bytes := List.replicate n 0

lemma length_zeros (n : ℕ) : (zeros n).length = n := List.length_replicate

/-- A tensor of zero bytes. Its store fills a frame to the last byte. -/
def wideTensor : Registration where
  address := ⟨.lit "", .lit "", 0⟩
  compat := wideKey
  payload := zeros 67108784
  payload_small := (length_zeros _).trans_lt (by norm_num)
  compat_small := by decide

lemma acknowledged_wide {r : Registration} (hcompat : r.compat = wideKey)
    (hlen : r.payload.length = 67108784) (haddress : r.address = ⟨.lit "", .lit "", 0⟩) :
    ∃ s₀ w₁ w₂ m, Runtime.new {} wideConfig [] ∅ 0 = .ok s₀ ∧
      Passes (Cluster.storeMessage r (.lit "")) ∧
      Handles s₀ r.address.objectId ⟨.lit "n", .lit "a"⟩ (Cluster.storeMessage r (.lit "")) {}
        [.storeAck r.address.objectId.toHex] w₁ ∧
      Handles s₀ r.address.objectId ⟨.lit "n", .lit "a"⟩
        (.fetch r.address.objectId.toHex ⟨r.compat.encode, r.compat_small⟩) w₁ [m] w₂ ∧
      m.msgType = .fetchReply ∧ ¬Passes m := by
  obtain ⟨hstore, hfetch⟩ := handles_wide hcompat hlen ⟨.lit "n", .lit "a"⟩
  exact ⟨_, _, _, _, rfl, passes_wide hcompat hlen haddress, hstore, hfetch, rfl,
    not_passes_wide hlen⟩

/-- A node takes in a tensor from a frame of exactly the maximal size. The reply to a fetch of it is
four bytes too long for any receiver. -/
theorem acknowledged_not_served :
    ∃ s₀ w₁ w₂ m, Runtime.new {} wideConfig [] ∅ 0 = .ok s₀ ∧
      Passes (Cluster.storeMessage wideTensor (.lit "")) ∧
      Handles s₀ wideTensor.address.objectId ⟨.lit "n", .lit "a"⟩
        (Cluster.storeMessage wideTensor (.lit "")) {}
        [.storeAck wideTensor.address.objectId.toHex] w₁ ∧
      Handles s₀ wideTensor.address.objectId ⟨.lit "n", .lit "a"⟩
        (.fetch wideTensor.address.objectId.toHex
          ⟨wideTensor.compat.encode, wideTensor.compat_small⟩) w₁ [m] w₂ ∧
      m.msgType = .fetchReply ∧ ¬Passes m :=
  acknowledged_wide rfl (length_zeros _) rfl

end TensorCache
