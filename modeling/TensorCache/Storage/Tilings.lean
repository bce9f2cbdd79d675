import TensorCache.Storage.Properties

/-!
# Block lists as tilings

What `validateBlockList` accepts, compared with what a block list should be: a tiling of the
tensor, in unbounded arithmetic. The running end of the check is a `u64` addition that wraps, so
the two agree exactly on the lists that stay below `2 ^ 64` (`validateBlockList_exact_iff`).
Reassembly is exact: it succeeds on the valid lists whose blocks are provided as declared, and
gives their concatenation (`chunk_reconstruct_exact`).
-/

namespace TensorCache

open Codec

/-- The number of bytes that blocks declare, in unbounded arithmetic. -/
def totalLen (blocks : List BlockRef) : ℕ := (blocks.map fun b => b.len.toNat).sum

@[simp] lemma totalLen_nil : totalLen [] = 0 := rfl

@[simp] lemma totalLen_cons (b : BlockRef) (blocks : List BlockRef) :
    totalLen (b :: blocks) = b.len.toNat + totalLen blocks := by
  simp [totalLen]

/-- Every block is nonempty and begins where the blocks before it end: `start` is the number of
bytes that they declare. -/
def Consecutive (start : ℕ) : List BlockRef → Prop
  | [] => True
  | b :: bs => 0 < b.len.toNat ∧ b.offset.toNat = start ∧ Consecutive (start + b.len.toNat) bs

/-- The blocks cover `byteLen` bytes without gap and overlap, and there are not too many. -/
structure Tiling (blocks : List BlockRef) (byteLen : UInt64) : Prop where
  few : blocks.length ≤ maxBlocksPerTensor
  placed : Consecutive 0 blocks
  total : totalLen blocks = byteLen.toNat

/-- The operands of the additions that the loop of `validateBlockList` performs. -/
def additionsFrom (byteLen : UInt64) (expected : UInt64) (seen : List (UInt64 × UInt64)) :
    List BlockRef → List (UInt64 × UInt64)
  | [] => []
  | b :: bs =>
    if b.len = 0 then []
    else if b.offset ≠ expected then []
    else (b.offset, b.len) ::
      if b.offset + b.len > byteLen then []
      else if (b.offset, b.len) ∈ seen then []
      else additionsFrom byteLen (b.offset + b.len) ((b.offset, b.len) :: seen) bs

/-- No addition that `validateBlockList` performs overflows. -/
def NoOverflow (blocks : List BlockRef) (byteLen : UInt64) : Prop :=
  blocks.length ≤ maxBlocksPerTensor →
    ∀ x ∈ additionsFrom byteLen 0 [] blocks, x.1.toNat + x.2.toNat < 2 ^ 64

/-- As long as the blocks are placed one behind the other and lie inside the tensor, the next one
ends below `2 ^ 64`. -/
def EndsInRange (blocks : List BlockRef) (byteLen : UInt64) : Prop :=
  blocks.length ≤ maxBlocksPerTensor →
    ∀ pre b rest, blocks = pre ++ b :: rest → Consecutive 0 (pre ++ [b]) →
      totalLen pre ≤ byteLen.toNat → totalLen pre + b.len.toNat < 2 ^ 64

/-! ### The loop -/

/-- `EndsInRange` from a given offset on, along the recursion of the check. -/
def EndsFrom (byteLen : UInt64) (start : ℕ) : List BlockRef → Prop
  | [] => True
  | b :: bs => 0 < b.len.toNat → b.offset.toNat = start →
      start + b.len.toNat < 2 ^ 64 ∧
        (start + b.len.toNat ≤ byteLen.toNat → EndsFrom byteLen (start + b.len.toNat) bs)

lemma endsFrom_iff (byteLen : UInt64) {start : ℕ} (hstart : start ≤ byteLen.toNat)
    (blocks : List BlockRef) :
    EndsFrom byteLen start blocks ↔
      ∀ pre b rest, blocks = pre ++ b :: rest → Consecutive start (pre ++ [b]) →
        start + totalLen pre ≤ byteLen.toNat → start + totalLen pre + b.len.toNat < 2 ^ 64 := by
  induction blocks generalizing start with
  | nil => simp [EndsFrom]
  | cons c bs ih =>
    constructor
    · intro h pre b rest hsplit hplaced hle
      cases pre with
      | nil =>
        cases hsplit
        exact (h hplaced.1 hplaced.2.1).1
      | cons p pre =>
        cases hsplit
        obtain ⟨hpos, hoff, hplaced⟩ := hplaced
        rw [totalLen_cons, ← Nat.add_assoc] at hle ⊢
        have hinside : start + c.len.toNat ≤ byteLen.toNat := by omega
        exact (ih hinside).mp ((h hpos hoff).2 hinside) pre b rest rfl hplaced hle
    · intro h hpos hoff
      refine ⟨?_, fun hinside => (ih hinside).mpr fun pre b rest hsplit hplaced hle => ?_⟩
      · exact h [] c bs rfl ⟨hpos, hoff, trivial⟩ hstart
      · have hall := h (c :: pre) b rest (by rw [hsplit]; rfl) ⟨hpos, hoff, hplaced⟩
        rw [totalLen_cons, ← Nat.add_assoc] at hall
        exact hall hle

/-- The end of a block as the check computes it, when it does not wrap. -/
lemma toNat_end {b : BlockRef} {start : ℕ} (hoff : b.offset.toNat = start)
    (hrange : start + b.len.toNat < 2 ^ 64) :
    (b.offset + b.len).toNat = start + b.len.toNat := by
  rw [UInt64.toNat_add, hoff, Nat.mod_eq_of_lt hrange]

lemma len_eq_zero_iff {b : BlockRef} : b.len = 0 ↔ ¬0 < b.len.toNat := by
  rw [← UInt64.toNat_inj]
  simp

lemma eq_expected_iff {x expected : UInt64} {start : ℕ} (h : expected.toNat = start) :
    x = expected ↔ x.toNat = start := by
  rw [← h, UInt64.toNat_inj]

lemma additionsFrom_cons (byteLen expected : UInt64) (seen : List (UInt64 × UInt64)) (b : BlockRef)
    (bs : List BlockRef) :
    additionsFrom byteLen expected seen (b :: bs) =
      if b.len = 0 then []
      else if b.offset ≠ expected then []
      else (b.offset, b.len) ::
        if b.offset + b.len > byteLen then []
        else if (b.offset, b.len) ∈ seen then []
        else additionsFrom byteLen (b.offset + b.len) ((b.offset, b.len) :: seen) bs := rfl

/-- The additions of the loop stay in range exactly if the blocks do. -/
lemma additionsFrom_iff (byteLen : UInt64) (blocks : List BlockRef) {expected : UInt64} {start : ℕ}
    {seen : List (UInt64 × UInt64)} (hexp : expected.toNat = start)
    (hseen : ∀ x ∈ seen, x.1.toNat < start) :
    (∀ x ∈ additionsFrom byteLen expected seen blocks, x.1.toNat + x.2.toNat < 2 ^ 64) ↔
      EndsFrom byteLen start blocks := by
  induction blocks generalizing expected start seen with
  | nil =>
    rw [EndsFrom]
    exact ⟨fun _ => trivial, fun _ => List.forall_mem_nil _⟩
  | cons b bs ih =>
    rw [additionsFrom_cons, EndsFrom]
    by_cases hpos : 0 < b.len.toNat
    swap
    · rw [if_pos (len_eq_zero_iff.mpr hpos)]
      simp [hpos]
    rw [if_neg (by rw [len_eq_zero_iff]; exact not_not.mpr hpos)]
    by_cases hoff : b.offset.toNat = start
    swap
    · rw [if_pos (by rw [ne_eq, eq_expected_iff hexp]; exact hoff)]
      simp [hoff]
    rw [if_neg (by rw [ne_eq, eq_expected_iff hexp]; simpa using hoff), List.forall_mem_cons, hoff]
    simp only [hpos, forall_const]
    refine and_congr_right fun hrange => ?_
    have hend := toNat_end hoff hrange
    by_cases hle : start + b.len.toNat ≤ byteLen.toNat
    · have hfresh : (b.offset, b.len) ∉ seen := fun hmem =>
        absurd (hseen _ hmem) (by simp only; omega)
      rw [if_neg (by rw [gt_iff_lt, UInt64.lt_iff_toNat_lt, hend]; omega), if_neg hfresh,
        ih hend fun x hx => ?_]
      · simp [hle]
      · rcases List.mem_cons.mp hx with rfl | hx
        · simp only
          omega
        · have := hseen x hx
          omega
    · rw [if_pos (by rw [gt_iff_lt, UInt64.lt_iff_toNat_lt, hend]; omega)]
      simp [hle]

/-- On blocks that stay in range the loop accepts exactly the tilings. -/
lemma validateFrom_iff (byteLen : UInt64) (blocks : List BlockRef) {expected : UInt64} {start : ℕ}
    {seen : List (UInt64 × UInt64)} (hexp : expected.toNat = start) (hstart : start ≤ byteLen.toNat)
    (hseen : ∀ x ∈ seen, x.1.toNat < start) (hends : EndsFrom byteLen start blocks) :
    validateFrom byteLen expected seen blocks = .ok () ↔
      Consecutive start blocks ∧ start + totalLen blocks = byteLen.toNat := by
  induction blocks generalizing expected start seen with
  | nil =>
    rw [validateFrom, ← hexp]
    simp only [Consecutive, totalLen_nil, Nat.add_zero, true_and, UInt64.toNat_inj]
    by_cases h : expected = byteLen
    · simp [h]
    · simp [h]
  | cons b bs ih =>
    rw [validateFrom, Consecutive]
    by_cases hpos : 0 < b.len.toNat
    swap
    · rw [if_pos (len_eq_zero_iff.mpr hpos)]
      simp [hpos]
    rw [if_neg (by rw [len_eq_zero_iff]; exact not_not.mpr hpos)]
    by_cases hoff : b.offset.toNat = start
    swap
    · rw [if_pos (by rw [ne_eq, eq_expected_iff hexp]; exact hoff)]
      simp [hoff]
    rw [if_neg (by rw [ne_eq, eq_expected_iff hexp]; simpa using hoff)]
    obtain ⟨hrange, hrest⟩ := hends hpos hoff
    have hend := toNat_end hoff hrange
    rw [totalLen_cons, ← Nat.add_assoc]
    by_cases hle : start + b.len.toNat ≤ byteLen.toNat
    · have hfresh : (b.offset, b.len) ∉ seen := fun hmem =>
        absurd (hseen _ hmem) (by simp only; omega)
      rw [if_neg (by rw [gt_iff_lt, UInt64.lt_iff_toNat_lt, hend]; omega), if_neg hfresh,
        ih hend hle (fun x hx => ?_) (hrest hle)]
      · simp [hpos, hoff]
      · rcases List.mem_cons.mp hx with rfl | hx
        · simp only
          omega
        · have := hseen x hx
          omega
    · rw [if_pos (by rw [gt_iff_lt, UInt64.lt_iff_toNat_lt, hend]; omega)]
      simp only [reduceCtorEq, false_iff, not_and]
      omega

/-! ### What is accepted -/

/-- The check accepts exactly the tilings and adds without overflow if and only if the blocks stay
in range. -/
theorem validateBlockList_exact_iff (blocks : List BlockRef) (byteLen : UInt64) :
    ((validateBlockList blocks byteLen = .ok () ↔ Tiling blocks byteLen) ∧
      NoOverflow blocks byteLen) ↔ EndsInRange blocks byteLen := by
  by_cases hfew : blocks.length ≤ maxBlocksPerTensor
  swap
  · have hreject : validateBlockList blocks byteLen ≠ .ok () := by
      rw [validateBlockList, if_pos (not_le.mp hfew)]
      simp
    have hnot : ¬Tiling blocks byteLen := fun h => hfew h.few
    simp [hreject, hnot, NoOverflow, EndsInRange, hfew]
  have hends : EndsInRange blocks byteLen ↔ EndsFrom byteLen 0 blocks := by
    rw [endsFrom_iff byteLen (Nat.zero_le _) blocks]
    simp [EndsInRange, hfew]
  have hover : NoOverflow blocks byteLen ↔ EndsFrom byteLen 0 blocks := by
    rw [← additionsFrom_iff byteLen blocks UInt64.toNat_zero (List.forall_mem_nil _)]
    simp [NoOverflow, hfew]
  rw [hends, hover]
  refine ⟨fun h => h.2, fun h => ⟨?_, h⟩⟩
  rw [validateBlockList, if_neg (not_lt.mpr hfew),
    validateFrom_iff byteLen blocks UInt64.toNat_zero (Nat.zero_le _) (List.forall_mem_nil _) h,
    Nat.zero_add]
  exact ⟨fun h => ⟨hfew, h.1, h.2⟩, fun h => ⟨h.placed, h.total⟩⟩

/-- Blocks that wrap past `2 ^ 64` and come back into range. -/
def wrappedBlocks : List BlockRef :=
  [⟨hash [], 0, 10, 0⟩, ⟨hash [], 10, 18446744073709551611, 0⟩, ⟨hash [], 5, 5, 0⟩]

/-- The check accepts blocks that declare `2 ^ 64 + 10` bytes for a tensor of 10 bytes. -/
theorem validateBlockList_wraps :
    validateBlockList wrappedBlocks 10 = .ok () ∧ ¬Tiling wrappedBlocks 10 ∧
      ¬NoOverflow wrappedBlocks 10 := by
  refine ⟨rfl, fun h => ?_, fun h => ?_⟩
  · exact absurd h.total (by decide)
  · have hmem : ((10, 18446744073709551611) : UInt64 × UInt64)
        ∈ additionsFrom 10 0 [] wrappedBlocks := by decide
    exact absurd (h (by decide) _ hmem) (by decide)

/-! ### Reassembly -/

/-- The provider has the block, with the declared length and checksum. -/
def Provides (get : Digest → Except Error Bytes) (b : BlockRef) (d : Bytes) : Prop :=
  get b.contentHash = .ok d ∧ d.length = b.len.toNat ∧ crc32c d = b.crc

variable {get : Digest → Except Error Bytes}

lemma length_eq_len_iff {b : BlockRef} {d : Bytes} (hd : d.length < 2 ^ 64) :
    UInt64.ofNat d.length = b.len ↔ d.length = b.len.toNat := by
  rw [← UInt64.toNat_inj, toNat_ofNat hd]

/-- One turn of the copy loop. -/
lemma reconstructFrom_cons_iff {b : BlockRef} {bs : List BlockRef} {out res : Bytes}
    (hsmall : ∀ d, get b.contentHash = .ok d → d.length < 2 ^ 64) :
    reconstructFrom get (b :: bs) out = .ok res ↔
      ∃ d, Provides get b d ∧ reconstructFrom get bs (copyAt out b.offset.toNat d) = .ok res := by
  rw [reconstructFrom]
  cases hget : get b.contentHash with
  | error e => simp [Provides, hget, bind, Except.bind]
  | ok d =>
    have hiff := length_eq_len_iff (b := b) (hsmall d hget)
    simp only [bind, Except.bind, Provides, hget, Except.ok.injEq]
    by_cases hlen : d.length = b.len.toNat
    · rw [if_neg (not_not.mpr (hiff.mpr hlen))]
      by_cases hcrc : crc32c d = b.crc
      · simp [hlen, hcrc]
      · simp [hcrc]
    · rw [if_pos fun h => hlen (hiff.mp h)]
      simp [hlen]

/-- The copy loop over consecutive blocks writes what is provided behind what is there. -/
lemma reconstructFrom_iff {bs : List BlockRef} (done : Bytes) {out res : Bytes}
    (hsmall : ∀ b ∈ bs, ∀ d, get b.contentHash = .ok d → d.length < 2 ^ 64)
    (hplaced : Consecutive done.length bs) (hout : out.length = done.length + totalLen bs)
    (htake : out.take done.length = done) :
    reconstructFrom get bs out = .ok res ↔
      ∃ ds, List.Forall₂ (Provides get) bs ds ∧ res = done ++ ds.flatten := by
  induction bs generalizing done out with
  | nil =>
    have hdone : out = done := by
      rw [← htake, List.take_of_length_le (by simp at hout; omega)]
    simp [reconstructFrom, hdone, eq_comm]
  | cons b bs ih =>
    obtain ⟨-, hoff, hplaced⟩ := hplaced
    rw [reconstructFrom_cons_iff (hsmall b (by simp)), hoff]
    have hturn : ∀ d, Provides get b d →
        (reconstructFrom get bs (copyAt out done.length d) = .ok res ↔
          ∃ ds, List.Forall₂ (Provides get) bs ds ∧ res = done ++ (d ++ ds.flatten)) := by
      rintro d ⟨-, hlen, -⟩
      have hlength : (List.replicate (totalLen bs) (0 : UInt8)).length = totalLen bs := by simp
      obtain ⟨htake', hout'⟩ := copyAt_pieces d (List.replicate (totalLen bs) 0)
        (by rw [hlength, hlen, hout, totalLen_cons]) htake
      rw [hlength] at hout'
      rw [← hlen, ← List.length_append] at hplaced
      rw [ih _ (fun c hc => hsmall c (by simp [hc])) hplaced hout' htake']
      simp only [List.append_assoc]
    constructor
    · rintro ⟨d, hd, hrest⟩
      obtain ⟨ds, hds, rfl⟩ := (hturn d hd).mp hrest
      exact ⟨d :: ds, .cons hd hds, by simp⟩
    · rintro ⟨_, hall, rfl⟩
      obtain _ | ⟨hd, hds⟩ := hall
      exact ⟨_, hd, (hturn _ hd).mpr ⟨_, hds, by simp⟩⟩

/-- A loop that succeeds was given every block as declared. -/
lemma provides_of_reconstructFrom {bs : List BlockRef} {out res : Bytes}
    (hsmall : ∀ b ∈ bs, ∀ d, get b.contentHash = .ok d → d.length < 2 ^ 64)
    (h : reconstructFrom get bs out = .ok res) : ∀ b ∈ bs, ∃ d, Provides get b d := by
  induction bs generalizing out with
  | nil => simp
  | cons b bs ih =>
    obtain ⟨d, hd, hrest⟩ := (reconstructFrom_cons_iff (hsmall b (by simp))).mp h
    intro c hc
    rcases List.mem_cons.mp hc with rfl | hc
    · exact ⟨d, hd⟩
    · exact ih (fun c hc => hsmall c (by simp [hc])) hrest c hc

lemma exists_of_forall₂ {bs : List BlockRef} {ds : List Bytes}
    (h : List.Forall₂ (Provides get) bs ds) : ∀ b ∈ bs, ∃ d, Provides get b d := by
  induction h with
  | nil => simp
  | cons hd _ ih => exact List.forall_mem_cons.mpr ⟨⟨_, hd⟩, ih⟩

/-- Reassembly succeeds exactly on valid lists whose blocks are provided as declared, and gives
their concatenation. -/
lemma reconstruct_iff {blocks : List BlockRef} {byteLen : UInt64} {out : Bytes}
    (hbyteLen : byteLen.toNat < 2 ^ 63)
    (hsmall : ∀ b ∈ blocks, ∀ d, get b.contentHash = .ok d → d.length < 2 ^ 63) :
    reconstruct blocks byteLen get = .ok out ↔
      validateBlockList blocks byteLen = .ok () ∧
        ∃ ds, List.Forall₂ (Provides get) blocks ds ∧ out = ds.flatten := by
  have hsmall' : ∀ b ∈ blocks, ∀ d, get b.contentHash = .ok d → d.length < 2 ^ 64 :=
    fun b hb d hd => (hsmall b hb d hd).trans (by norm_num)
  rw [reconstruct]
  cases hvalid : validateBlockList blocks byteLen with
  | error e => simp [bind, Except.bind]
  | ok u =>
    change reconstructFrom get blocks _ = _ ↔ _
    simp only [true_and]
    by_cases hlens : ∀ b ∈ blocks, b.len.toNat < 2 ^ 63
    · -- blocks of this size cannot wrap: the list is a tiling
      have hends : EndsInRange blocks byteLen := by
        intro _ pre b rest hsplit _ hle
        have := hlens b (by simp [hsplit])
        omega
      have htiling := ((validateBlockList_exact_iff blocks byteLen).mpr hends).1.mp hvalid
      rw [reconstructFrom_iff [] hsmall' htiling.placed (by simp [htiling.total]) (by simp)]
      simp
    · -- a block that is larger than any provided one
      push Not at hlens
      obtain ⟨b, hb, hlarge⟩ := hlens
      have hno : ¬∃ d, Provides get b d := by
        rintro ⟨d, hd, hlen, -⟩
        have := hsmall b hb d hd
        omega
      constructor
      · exact fun h => absurd (provides_of_reconstructFrom hsmall' h b hb) hno
      · rintro ⟨ds, hds, -⟩
        exact absurd (exists_of_forall₂ hds b hb) hno

/-! ### Chunking -/

/-- Every block of the chunking loop has the block size, except the last, which is not empty. -/
lemma len_of_chunkFrom {bytes : Bytes} (hsmall : bytes.length < 2 ^ 64) {blockSize : ℕ}
    (hpos : 0 < blockSize) {n offset : ℕ} {pre rest : List BlockRef} {b : BlockRef}
    (h : chunkFrom bytes blockSize n offset = pre ++ b :: rest) :
    0 < b.len.toNat ∧ b.len.toNat ≤ blockSize ∧ (rest ≠ [] → b.len.toNat = blockSize) := by
  induction n generalizing offset pre with
  | zero => simp [chunkFrom] at h
  | succ n ih =>
    rw [chunkFrom] at h
    split_ifs at h with hlt
    swap
    · simp at h
    cases pre with
    | cons p pre => exact ih (List.cons.inj h).2
    | nil =>
      obtain ⟨rfl, hrest⟩ := List.cons.inj h
      have hlen : (blockRef (slice bytes offset
          (offset + min blockSize (bytes.length - offset) - offset)) offset).len.toNat
            = min blockSize (bytes.length - offset) := by
        rw [blockRef, Nat.add_sub_cancel_left, length_slice bytes (by omega), toNat_ofNat (by omega)]
      rw [hlen]
      refine ⟨by omega, by omega, fun hne => ?_⟩
      -- a further block begins inside the payload
      have hmore : offset + min blockSize (bytes.length - offset) < bytes.length := by
        by_contra hend
        refine hne ?_
        rw [← hrest]
        cases n with
        | zero => rfl
        | succ n => rw [chunkFrom, if_neg hend]
      omega

lemma map_slice_refsFrom (done : Bytes) (ps : List Bytes)
    (hsmall : done.length + ps.flatten.length < 2 ^ 64) :
    (refsFrom done.length ps).map (fun b => slice (done ++ ps.flatten) b.offset.toNat b.len.toNat)
      = ps := by
  induction ps generalizing done with
  | nil => rfl
  | cons b ps ih =>
    simp only [List.flatten_cons, List.length_append] at hsmall ⊢
    have hrest := ih (done ++ b) (by simp only [List.length_append]; omega)
    rw [List.append_assoc, List.length_append] at hrest
    rw [refsFrom, List.map_cons, hrest]
    congr 1
    rw [blockRef, toNat_ofNat (by omega), toNat_ofNat (by omega), slice_pieces]

/-- A block of a payload, read back from the payload, has the hash of its reference. -/
lemma hash_slice_of_mem_chunkFrom {bytes : Bytes} (hsmall : bytes.length < 2 ^ 64)
    {blockSize n offset : ℕ} {b : BlockRef} (hb : b ∈ chunkFrom bytes blockSize n offset) :
    hash (slice bytes b.offset.toNat b.len.toNat) = b.contentHash := by
  induction n generalizing offset with
  | zero => simp [chunkFrom] at hb
  | succ n ih =>
    rw [chunkFrom] at hb
    split_ifs at hb with hlt
    swap
    · simp at hb
    rcases List.mem_cons.mp hb with rfl | hb
    · simp only [blockRef, Nat.add_sub_cancel_left]
      rw [length_slice bytes (by omega), toNat_ofNat (by omega), toNat_ofNat (by omega)]
    · exact ih hb

/-- Chunking gives a valid list of full blocks, the last one possibly shorter, from which the
payload can be reassembled. Reassembly is exact for every list. -/
theorem chunk_reconstruct_exact :
    (∀ (p : Bytes) (blockSize : ℕ), p.length < 2 ^ 64 → 0 < blockSize →
      (p.length + blockSize - 1) / blockSize ≤ maxBlocksPerTensor →
      ∃ bs, chunk p blockSize = .ok bs ∧
        validateBlockList bs (UInt64.ofNat p.length) = .ok () ∧
        (∀ pre b rest, bs = pre ++ b :: rest → 0 < b.len.toNat ∧ b.len.toNat ≤ blockSize ∧
          (rest ≠ [] → b.len.toNat = blockSize)) ∧
        ∀ get : Digest → Except Error Bytes,
          (∀ b ∈ bs, get b.contentHash = .ok (slice p b.offset.toNat b.len.toNat)) →
          reconstruct bs (UInt64.ofNat p.length) get = .ok p) ∧
    ∀ (blocks : List BlockRef) (byteLen : UInt64) (get : Digest → Except Error Bytes),
      byteLen.toNat < 2 ^ 63 →
      (∀ b ∈ blocks, ∀ d, get b.contentHash = .ok d → d.length < 2 ^ 63) →
      ∀ out, reconstruct blocks byteLen get = .ok out ↔
        validateBlockList blocks byteLen = .ok () ∧
          ∃ ds, List.Forall₂ (Provides get) blocks ds ∧ out = ds.flatten := by
  refine ⟨fun p blockSize hsmall hpos hfew => ?_,
    fun blocks byteLen get hbyteLen hprovided out => reconstruct_iff hbyteLen hprovided⟩
  have hchunk := chunk_eq p hpos
  rw [if_neg (not_lt.mpr hfew)] at hchunk
  obtain ⟨hrefs, htiles⟩ := chunk_spec hchunk
  refine ⟨_, hchunk, ?_, fun pre b rest h => len_of_chunkFrom hsmall hpos h, fun get hget => ?_⟩
  · rw [hrefs]
    exact validateBlockList_tiles htiles hsmall
  · have hslices := map_slice_refsFrom [] (pieces p blockSize)
      (by rw [htiles.flatten]; simpa using hsmall)
    rw [htiles.flatten, List.length_nil, List.nil_append, ← hrefs] at hslices
    have hprovided : ∀ c ∈ pieces p blockSize, get (hash c) = .ok c := by
      intro c hc
      rw [← hslices] at hc
      obtain ⟨b, hb, rfl⟩ := List.mem_map.mp hc
      rw [hash_slice_of_mem_chunkFrom hsmall hb]
      exact hget b hb
    rw [hrefs]
    exact reconstruct_tiles htiles hsmall hprovided

/-- A payload of three bytes in one block, from a provider that has only this block. -/
theorem chunk_reconstruct_three :
    chunk [1, 2, 3] 4 = .ok [blockRef [1, 2, 3] 0] ∧
      reconstruct [blockRef [1, 2, 3] 0] 3 (fun _ => .ok [1, 2, 3]) = .ok [1, 2, 3] ∧
      ∃ ds, List.Forall₂ (Provides fun _ => .ok [1, 2, 3]) [blockRef [1, 2, 3] 0] ds ∧
        [1, 2, 3] = ds.flatten := by
  have hone : chunk [1, 2, 3] 4 = .ok [blockRef [1, 2, 3] 0] :=
    chunk_of_le (by norm_num) (by simp)
  obtain ⟨bs, hchunk, -, -, hget⟩ :=
    chunk_reconstruct_exact.1 [1, 2, 3] 4 (by simp) (by norm_num) (by decide)
  rw [hone] at hchunk
  cases hchunk
  have hrun := hget (fun _ => .ok [1, 2, 3]) (by simp [blockRef, slice])
  refine ⟨hone, hrun, ?_⟩
  exact ((chunk_reconstruct_exact.2 _ 3 _ (by decide) (by simp) _).mp hrun).2

end TensorCache
