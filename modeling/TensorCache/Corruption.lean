import TensorCache.Checksum
import TensorCache.Protocol.Frame
import TensorCache.Storage.Properties

/-!
# Short corruption

Changes within four consecutive bytes of a block or of the payload of a frame are detected by the
checksum. A frame states the length of its payload in 32 bits, however; if a payload is too long
for that, the reader takes a short piece of it for all of it, and a change can make the checksum
fit.
-/

namespace TensorCache

open Codec Transport

/-! ### Blocks -/

/-- A block with the wrong checksum stops reassembly. -/
lemma reconstructFrom_error {get : Digest → Except Error Bytes} {bs : List BlockRef} {b : BlockRef}
    {data : Bytes} (hb : b ∈ bs) (hget : get b.contentHash = .ok data) (hcrc : crc32c data ≠ b.crc)
    (out : Bytes) : ∃ e, reconstructFrom get bs out = .error e := by
  induction bs generalizing out with
  | nil => cases hb
  | cons c bs ih =>
    rw [reconstructFrom]
    cases hc : get c.contentHash with
    | error e => exact ⟨e, rfl⟩
    | ok d =>
      simp only [bind, Except.bind]
      split_ifs with hlen hsum
      · exact ⟨_, rfl⟩
      · exact ⟨_, rfl⟩
      · rcases List.mem_cons.mp hb with rfl | hb
        · rw [hget] at hc
          cases hc
          exact absurd hcrc hsum
        · exact ih hb _

/-- The reference to a piece carries its checksum. -/
lemma crc_of_mem_refsFrom {ps : List Bytes} (offset : ℕ) {b : Bytes} (hb : b ∈ ps) :
    ∃ r ∈ refsFrom offset ps, r.contentHash = hash b ∧ r.crc = crc32c b := by
  induction ps generalizing offset with
  | nil => cases hb
  | cons c ps ih =>
    rcases List.mem_cons.mp hb with rfl | hb
    · exact ⟨blockRef b offset, List.mem_cons_self, rfl, rfl⟩
    · obtain ⟨r, hr, hhash, hcrc⟩ := ih (offset + c.length) hb
      exact ⟨r, List.mem_cons_of_mem _ hr, hhash, hcrc⟩

/-- Reassembly refuses an altered block. -/
lemma reconstruct_altered {p : Bytes} {blockSize : ℕ} {blocks : List BlockRef}
    (hchunk : chunk p blockSize = .ok blocks) {block data : Bytes} (hb : block ∈ pieces p blockSize)
    {get : Digest → Except Error Bytes} (hget : get (hash block) = .ok data)
    (h : Altered block data) (byteLen : UInt64) :
    ∃ e, reconstruct blocks byteLen get = .error e := by
  obtain ⟨r, hr, hhash, hcrc⟩ := crc_of_mem_refsFrom 0 hb
  rw [← (chunk_spec hchunk).1] at hr
  rw [← hhash] at hget
  have hne : crc32c data ≠ r.crc := by
    rw [hcrc]
    exact h.crc_ne.symm
  rw [reconstruct]
  cases validateBlockList blocks byteLen with
  | error e => exact ⟨e, rfl⟩
  | ok u => exact reconstructFrom_error hr hget hne _

/-! ### Frames -/

/-- The header of the frame of a payload. -/
def headerOf (tag : UInt8) (payload : Bytes) : Bytes := (encodeFrame tag payload).take headerLen

/-- Whatever comes behind it, a frame whose payload was altered is refused. -/
def RefusesAltered (tag : UInt8) (payload : Bytes) : Prop :=
  ∀ payload' rest s, Altered payload payload' → Clean s →
    contents s = headerOf tag payload ++ payload' ++ rest → ∃ e, readFrame s = .error e

/-- The length that the header of a frame states. -/
def statedLen (payload : Bytes) : ℕ := payload.length % 2 ^ 32

/-- The payload is too long for the length field, and a change within four bytes of it makes the
checksum fit the piece that the reader takes for the payload. -/
structure TakenForShorter (tag : UInt8) (payload : Bytes) : Prop where
  type : ∃ t, MsgType.fromTag tag = .ok t
  long : 2 ^ 32 ≤ payload.length
  stated : statedLen payload ≤ maxFrame.toNat
  fits : 4 ≤ statedLen payload ∨ ∃ y : Bytes, y.length = statedLen payload ∧
    crc32c (frameHead tag (UInt32.ofNat payload.length) ++ y)
      = crc32c (frameHead tag (UInt32.ofNat payload.length) ++ payload)

lemma headerOf_eq (tag : UInt8) (payload : Bytes) :
    headerOf tag payload = header frameMagic frameVersion tag (UInt32.ofNat payload.length)
      (crc32c (frameHead tag (UInt32.ofNat payload.length) ++ payload)) [0, 0] := rfl

lemma ofNat_statedLen (payload : Bytes) :
    UInt32.ofNat (statedLen payload) = UInt32.ofNat payload.length := by
  rw [← UInt32.toNat_inj, UInt32.toNat_ofNat', UInt32.toNat_ofNat', statedLen, Nat.mod_mod]

lemma Altered.append_left {a b : Bytes} (h : Altered a b) (pre : Bytes) :
    Altered (pre ++ a) (pre ++ b) := by
  refine ⟨by rw [List.length_append, List.length_append, h.length],
    fun heq => h.ne (List.append_cancel_left heq), ?_⟩
  obtain ⟨i, hi⟩ := h.window
  refine ⟨pre.length + i, fun j hj => ?_⟩
  rcases Nat.lt_or_ge j pre.length with hlt | hge
  · rw [List.getElem?_append_left hlt, List.getElem?_append_left hlt]
  · rw [List.getElem?_append_right hge, List.getElem?_append_right hge]
    exact hi _ (by omega)

/-- What the reader accepts behind the header of a payload has the stated length and the checksum
of the payload. -/
lemma readFrame_headerOf {tag : UInt8} {payload payload' rest : Bytes} {s : Incoming}
    (hs : Clean s) (h : contents s = headerOf tag payload ++ payload' ++ rest)
    (hok : ¬∃ e, readFrame s = .error e) :
    ∃ t p rest', MsgType.fromTag tag = .ok t ∧ p.length = statedLen payload ∧
      p.length ≤ maxFrame.toNat ∧ payload' ++ rest = p ++ rest' ∧
      crc32c (frameHead tag (UInt32.ofNat payload.length) ++ p)
        = crc32c (frameHead tag (UInt32.ofNat payload.length) ++ payload) := by
  rw [headerOf_eq, List.append_assoc] at h
  have hcase := readFrame_cases hs
  cases hout : readFrame s with
  | error e => exact absurd ⟨e, hout⟩ hok
  | ok out =>
    rw [hout] at hcase
    cases hcase with
    | closed hnil =>
      rw [hnil] at h
      cases h
    | frame t p reserved s' hsmall hreserved _ hcontents =>
      rw [copyAt_encodeFrame hreserved, List.append_assoc, h] at hcontents
      obtain ⟨hhead, hrest⟩ := List.append_inj hcontents (by
        rw [length_header _ _ _ _ _ _ hreserved, length_header _ _ _ _ _ _ rfl])
      have htag := congrArg (fun head => List.getD head 5 0) hhead
      have hlength := congrArg (fun head => headU32 head 6) hhead
      have hcrc := congrArg (fun head => headU32 head 10) hhead
      simp only [getD_tag, headU32_length, headU32_crc] at htag hlength hcrc
      have hstated : p.length = statedLen payload := by
        have hmod := congrArg UInt32.toNat hlength
        rw [UInt32.toNat_ofNat', UInt32.toNat_ofNat',
          Nat.mod_eq_of_lt (lt_of_le_of_lt hsmall (by decide))] at hmod
        exact hmod.symm
      rw [← hlength, ← htag] at hcrc
      exact ⟨t, p, contents s', by rw [htag, MsgType.fromTag_tag], hstated, hsmall, hrest, hcrc.symm⟩

/-- A stream that delivers bytes in one piece. -/
lemma exists_clean (bs : Bytes) : ∃ s, Clean s ∧ contents s = bs := by
  refine ⟨push bs [], clean_push (fun message => by simp) bs, ?_⟩
  rw [contents_push]
  exact List.append_nil bs

/-- If a piece of the stated length fits the header, then some altered payload begins with it, as
long as it agrees with the payload behind its first four bytes. -/
lemma exists_altered {payload y : Bytes} (hlong : statedLen payload < payload.length)
    (hy : y.length = statedLen payload)
    (htail : ∀ j, 4 ≤ j → j < statedLen payload → y[j]? = payload[j]?) :
    ∃ payload' rest, Altered payload payload' ∧ payload' = y ++ rest := by
  have hdrop : ∀ j, statedLen payload ≤ j →
      (y ++ payload.drop (statedLen payload))[j]? = payload[j]? := by
    intro j hj
    rw [List.getElem?_append_right (hy ▸ hj), hy, List.getElem?_drop, Nat.add_sub_cancel' hj]
  have hlen : (y ++ payload.drop (statedLen payload)).length = payload.length := by
    rw [List.length_append, List.length_drop, hy]
    omega
  by_cases hsame : payload = y ++ payload.drop (statedLen payload)
  · -- change a byte that is not read
    obtain ⟨b, behind, hbehind⟩ : ∃ b behind, payload.drop (statedLen payload) = b :: behind := by
      refine List.exists_cons_of_length_pos ?_
      rw [List.length_drop]
      omega
    rw [hbehind] at hsame
    refine ⟨y ++ (b + 1) :: behind, (b + 1) :: behind, ⟨?_, ?_, statedLen payload, ?_⟩, rfl⟩
    · rw [hsame]
      simp
    · intro heq
      rw [hsame] at heq
      have hb := List.head_eq_of_cons_eq (List.append_cancel_left heq)
      revert hb
      exact forall_uint8 (p := fun b => b = b + 1 → False) (by decide +kernel) b
    · intro j hj
      conv_lhs => rw [hsame]
      rcases Nat.lt_or_ge j y.length with hlt | hge
      · rw [List.getElem?_append_left hlt, List.getElem?_append_left hlt]
      · rw [List.getElem?_append_right hge, List.getElem?_append_right hge,
          List.getElem?_cons, List.getElem?_cons, if_neg (by omega), if_neg (by omega)]
  · refine ⟨_, _, ⟨hlen.symm, hsame, 0, fun j hj => ?_⟩, rfl⟩
    rcases Nat.lt_or_ge j (statedLen payload) with hlt | hge
    · rw [List.getElem?_append_left (hy ▸ hlt)]
      exact (htail j (by omega) hlt).symm
    · exact (hdrop j hge).symm

/-- A piece that fits the header and agrees with the payload behind its first four bytes. -/
lemma TakenForShorter.exists_piece {tag : UInt8} {payload : Bytes} (h : TakenForShorter tag payload) :
    ∃ y : Bytes, y.length = statedLen payload ∧
      crc32c (frameHead tag (UInt32.ofNat payload.length) ++ y)
        = crc32c (frameHead tag (UInt32.ofNat payload.length) ++ payload) ∧
      ∀ j, 4 ≤ j → j < statedLen payload → y[j]? = payload[j]? := by
  rcases Nat.lt_or_ge (statedLen payload) 4 with hshort | hlong
  · obtain ⟨y, hy, hcrc⟩ := h.fits.resolve_left (Nat.not_le.mpr hshort)
    exact ⟨y, hy, hcrc, fun j hj hlt => by omega⟩
  · -- the first four bytes can be chosen to make the checksum fit
    have hle : statedLen payload < payload.length := (Nat.mod_lt _ (by decide)).trans_le h.long
    obtain ⟨r, hr⟩ := foldl_crcByte_surjective ((payload.take (statedLen payload)).drop 4)
      (payload.foldl crcByte
        ((frameHead tag (UInt32.ofNat payload.length)).foldl crcByte (0 ^^^ 0xFFFFFFFF)))
    obtain ⟨x, hx, hfold⟩ := exists_foldl_crcByte
      ((frameHead tag (UInt32.ofNat payload.length)).foldl crcByte (0 ^^^ 0xFFFFFFFF)) r
    refine ⟨x ++ (payload.take (statedLen payload)).drop 4, ?_, ?_, fun j hj hlt => ?_⟩
    · rw [List.length_append, List.length_drop, List.length_take, hx]
      omega
    · simp only [crc32c, crc32cContinue, List.foldl_append, hfold, hr]
    · rw [List.getElem?_append_right (hx ▸ hj), hx, List.getElem?_drop, Nat.add_sub_cancel' hj,
        List.getElem?_take, if_pos hlt]

/-- A frame whose payload was altered is refused unless the payload is taken for a shorter one. -/
lemma refusesAltered_iff (tag : UInt8) (payload : Bytes) :
    RefusesAltered tag payload ↔ ¬TakenForShorter tag payload := by
  constructor
  · intro hrefuses htaken
    obtain ⟨t, ht⟩ := htaken.type
    obtain ⟨y, hy, hcrc, htail⟩ := htaken.exists_piece
    have hle : statedLen payload < payload.length :=
      (Nat.mod_lt _ (by decide)).trans_le htaken.long
    obtain ⟨payload', rest, haltered, rfl⟩ := exists_altered hle hy htail
    obtain ⟨s, hs, hcontents⟩ := exists_clean (headerOf tag payload ++ (y ++ rest) ++ [])
    obtain ⟨e, he⟩ := hrefuses _ _ s haltered hs hcontents
    have hframe : contents s = copyAt (encodeFrame t.tag y) 14 [0, 0] ++ rest := by
      rw [hcontents, headerOf_eq, copyAt_encodeFrame rfl, MsgType.tag_of_fromTag ht, hy,
        ofNat_statedLen, hcrc, List.append_nil, List.append_assoc]
    obtain ⟨s', -, -, hread⟩ := readFrame_frame hs (hy.trans_le htaken.stated) rfl hframe
    rw [hread] at he
    cases he
  · intro hnot payload' rest s haltered hs hcontents
    by_contra hok
    obtain ⟨t, p, rest', ht, hlen, hsmall, hsplit, hcrc⟩ := readFrame_headerOf hs hcontents hok
    rcases Nat.lt_or_ge payload.length (2 ^ 32) with hshort | hlong
    · -- the stated length is the length, so all of the altered payload is read
      have hp : payload' = p := by
        refine (List.append_inj hsplit ?_).1
        rw [← haltered.length, hlen, statedLen, Nat.mod_eq_of_lt hshort]
      rw [← hp] at hcrc
      exact (haltered.append_left _).crc_ne hcrc.symm
    · exact hnot ⟨⟨t, ht⟩, hlong, hlen ▸ hsmall, Or.inr ⟨p, hlen, hcrc⟩⟩

/-- Short corruption changes the checksum, and reassembly refuses every block that was altered so.
Frames whose payload was altered so are all refused, exactly if the payload is not taken for a
shorter one. -/
theorem short_corruption_iff (tag : UInt8) (payload : Bytes) :
    (∀ a b, Altered a b → crc32c a ≠ crc32c b) ∧
    (∀ p blockSize blocks, chunk p blockSize = .ok blocks → ∀ block ∈ pieces p blockSize,
      ∀ data, Altered block data → ∀ get : Digest → Except Error Bytes, get (hash block) = .ok data →
        ∀ byteLen, ∃ e, reconstruct blocks byteLen get = .error e) ∧
    (RefusesAltered tag payload ↔ ¬TakenForShorter tag payload) :=
  ⟨fun _ _ h => h.crc_ne,
    fun _ _ _ hchunk _ hb _ h _ hget byteLen => reconstruct_altered hchunk hb hget h byteLen,
    refusesAltered_iff tag payload⟩

/-- Of a payload of `2 ^ 32 + 4` zero bytes the reader takes four bytes for all of it, and four
other bytes in their place are accepted. -/
theorem short_corruption_accepted :
    ¬RefusesAltered MsgType.heartbeat.tag (List.replicate (2 ^ 32 + 4) 0) := by
  have hlen : statedLen (List.replicate (2 ^ 32 + 4) 0) = 4 := by
    rw [statedLen, List.length_replicate]
    rfl
  rw [refusesAltered_iff, not_not]
  refine ⟨⟨_, MsgType.fromTag_tag _⟩, ?_, ?_, ?_⟩
  · rw [List.length_replicate]
    exact Nat.le_add_right _ _
  · rw [hlen]
    decide
  · rw [hlen]
    exact Or.inl (Nat.le_refl 4)

end TensorCache
