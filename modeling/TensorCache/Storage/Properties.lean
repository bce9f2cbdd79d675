import TensorCache.Storage.Basic

/-!
# Chunking, reassembly and the arena

`chunk` cuts a payload into consecutive nonempty pieces (`Tiles`), and every fact about block
lists made by the runtime is a fact about such pieces: they are accepted by
`validateBlockList`, and reassembling them from a provider that has them gives the payload
back. The arena keeps its two maps and its byte total in step (`BlockArena.Wf`).
-/

namespace TensorCache

open Codec

/-! ### Pieces of a payload -/

/-- The references to consecutive pieces, from a given offset on. -/
def refsFrom (offset : ℕ) : List Bytes → List BlockRef
  | [] => []
  | b :: bs => blockRef b offset :: refsFrom (offset + b.length) bs

/-- The pieces cut by `chunkFrom`. -/
def piecesFrom (bytes : Bytes) (blockSize : ℕ) : ℕ → ℕ → List Bytes
  | 0, _ => []
  | n + 1, offset =>
    if offset < bytes.length then
      slice bytes offset (min blockSize (bytes.length - offset)) ::
        piecesFrom bytes blockSize n (offset + min blockSize (bytes.length - offset))
    else []

/-- The pieces of a payload for a given block size. -/
def pieces (bytes : Bytes) (blockSize : ℕ) : List Bytes :=
  piecesFrom bytes blockSize ((bytes.length + blockSize - 1) / blockSize) 0

/-- Consecutive nonempty pieces that make up a payload, and not too many of them. -/
structure Tiles (p : Bytes) (ps : List Bytes) : Prop where
  flatten : ps.flatten = p
  nonempty : ∀ b ∈ ps, b ≠ []
  few : ps.length ≤ maxBlocksPerTensor

lemma length_slice (bytes : Bytes) {start len : ℕ} (h : start + len ≤ bytes.length) :
    (slice bytes start len).length = len := by
  simp only [slice, List.length_take, List.length_drop]
  omega

lemma chunkFrom_eq (bytes : Bytes) (blockSize n offset : ℕ) :
    chunkFrom bytes blockSize n offset = refsFrom offset (piecesFrom bytes blockSize n offset) := by
  induction n generalizing offset with
  | zero => rfl
  | succ n ih =>
    simp only [chunkFrom, piecesFrom]
    split_ifs with hlt
    · have hlen : (slice bytes offset (min blockSize (bytes.length - offset))).length
          = min blockSize (bytes.length - offset) :=
        length_slice bytes (by omega)
      simp only [refsFrom, ih, hlen, Nat.add_sub_cancel_left]
    · rfl

lemma flatten_piecesFrom {bytes : Bytes} {blockSize n offset : ℕ}
    (h : bytes.length - offset ≤ n * blockSize) :
    (piecesFrom bytes blockSize n offset).flatten = bytes.drop offset := by
  induction n generalizing offset with
  | zero =>
    have hle : bytes.length ≤ offset := by omega
    simp [piecesFrom, List.drop_eq_nil_of_le hle]
  | succ n ih =>
    simp only [piecesFrom]
    split_ifs with hlt
    · have hrest : bytes.length - (offset + min blockSize (bytes.length - offset))
          ≤ n * blockSize := by
        rw [Nat.succ_mul] at h
        omega
      rw [List.flatten_cons, ih hrest, slice, ← List.drop_drop, List.take_append_drop]
    · rw [List.flatten_nil, List.drop_eq_nil_of_le (by omega)]

lemma piecesFrom_nonempty {bytes : Bytes} {blockSize : ℕ} (hbs : 0 < blockSize) (n offset : ℕ) :
    ∀ b ∈ piecesFrom bytes blockSize n offset, b ≠ [] := by
  induction n generalizing offset with
  | zero => simp [piecesFrom]
  | succ n ih =>
    simp only [piecesFrom]
    split_ifs with hlt
    · intro b hb
      rcases List.mem_cons.mp hb with rfl | hb
      · have hlen : offset + min blockSize (bytes.length - offset) ≤ bytes.length := by omega
        have := length_slice bytes hlen
        intro hnil
        rw [hnil, List.length_nil] at this
        omega
      · exact ih _ b hb
    · simp

lemma length_piecesFrom_le (bytes : Bytes) (blockSize n offset : ℕ) :
    (piecesFrom bytes blockSize n offset).length ≤ n := by
  induction n generalizing offset with
  | zero => simp [piecesFrom]
  | succ n ih =>
    simp only [piecesFrom]
    split_ifs with hlt
    · simpa using ih _
    · simp

lemma le_divCeil_mul (n : ℕ) {b : ℕ} (hb : 0 < b) : n ≤ (n + b - 1) / b * b := by
  have := Nat.div_add_mod (n + b - 1) b
  have := Nat.mod_lt (n + b - 1) hb
  rw [Nat.mul_comm]
  omega

lemma pos_of_chunk {p : Bytes} {blockSize : ℕ} {refs : List BlockRef}
    (h : chunk p blockSize = .ok refs) : 0 < blockSize := by
  by_contra hzero
  rw [chunk, if_pos (by omega)] at h
  cases h

lemma chunk_eq (p : Bytes) {blockSize : ℕ} (hbs : 0 < blockSize) :
    chunk p blockSize = if (p.length + blockSize - 1) / blockSize > maxBlocksPerTensor then
      .error (.geometry "block count exceeds maximum")
    else .ok (chunkFrom p blockSize ((p.length + blockSize - 1) / blockSize) 0) := by
  rw [chunk, if_neg (by omega)]

/-- `chunk` gives the references to the pieces of the payload, which tile it. -/
lemma chunk_spec {p : Bytes} {blockSize : ℕ} {refs : List BlockRef}
    (h : chunk p blockSize = .ok refs) :
    refs = refsFrom 0 (pieces p blockSize) ∧ Tiles p (pieces p blockSize) := by
  have hbs := pos_of_chunk h
  rw [chunk_eq p hbs] at h
  split_ifs at h with hmany
  cases h
  refine ⟨chunkFrom_eq p blockSize _ 0, ?_, piecesFrom_nonempty hbs _ _, ?_⟩
  · rw [pieces, flatten_piecesFrom (by simpa using le_divCeil_mul p.length hbs), List.drop_zero]
  · exact (length_piecesFrom_le p blockSize _ 0).trans (not_lt.mp hmany)

/-- A payload that fits one block is one block, whatever the block size. -/
lemma chunk_of_le {p : Bytes} {blockSize : ℕ} (hbs : 0 < blockSize) (h : p.length ≤ blockSize) :
    chunk p blockSize = .ok (if p = [] then [] else [blockRef p 0]) := by
  rw [chunk_eq p hbs]
  by_cases hp : p = []
  · have hn : (p.length + blockSize - 1) / blockSize = 0 := by
      rw [hp, List.length_nil, Nat.zero_add, Nat.div_eq_of_lt (by omega)]
    rw [hn, if_neg (by simp), if_pos hp, chunkFrom]
  · have hpos : 0 < p.length := List.length_pos_iff.mpr hp
    have hn : (p.length + blockSize - 1) / blockSize = 1 :=
      Nat.div_eq_of_lt_le (by omega) (by omega)
    rw [hn, if_neg (by simp [maxBlocksPerTensor]), if_neg hp]
    simp only [chunkFrom, hpos, if_true, Nat.sub_zero, Nat.zero_add, Nat.min_eq_right h, slice,
      List.drop_zero, List.take_length]

/-! ### Validation -/

lemma length_refsFrom (offset : ℕ) (ps : List Bytes) : (refsFrom offset ps).length = ps.length := by
  induction ps generalizing offset with
  | nil => rfl
  | cons b ps ih => simp [refsFrom, ih]

lemma validateFrom_refsFrom {ps : List Bytes} {offset : ℕ} {seen : List (UInt64 × UInt64)}
    (hsmall : offset + ps.flatten.length < 2 ^ 64) (hne : ∀ b ∈ ps, b ≠ [])
    (hseen : ∀ x ∈ seen, x.1.toNat < offset) :
    validateFrom (UInt64.ofNat (offset + ps.flatten.length)) (UInt64.ofNat offset) seen
      (refsFrom offset ps) = .ok () := by
  induction ps generalizing offset seen with
  | nil => simp [refsFrom, validateFrom]
  | cons b ps ih =>
    have hb : 0 < b.length := List.length_pos_iff.mpr (hne b (by simp))
    simp only [List.flatten_cons, List.length_append] at hsmall ⊢
    have hlen : UInt64.ofNat b.length ≠ 0 := by
      intro h
      have := congrArg UInt64.toNat h
      rw [toNat_ofNat (by omega)] at this
      simp only [UInt64.toNat_zero] at this
      omega
    have hend : UInt64.ofNat offset + UInt64.ofNat b.length = UInt64.ofNat (offset + b.length) := by
      rw [UInt64.ofNat_add]
    have hle : ¬UInt64.ofNat (offset + b.length)
        > UInt64.ofNat (offset + (b.length + ps.flatten.length)) := by
      simp only [gt_iff_lt, UInt64.lt_iff_toNat_lt, not_lt]
      rw [toNat_ofNat (by omega), toNat_ofNat (by omega)]
      omega
    have hfresh : (UInt64.ofNat offset, UInt64.ofNat b.length) ∉ seen := by
      intro hmem
      have := hseen _ hmem
      rw [toNat_ofNat (by omega)] at this
      omega
    simp only [refsFrom, validateFrom, blockRef, hlen, if_false, ne_eq, not_true_eq_false, hend,
      hle, hfresh]
    rw [← Nat.add_assoc]
    refine ih (by omega) (fun c hc => hne c (by simp [hc])) ?_
    intro x hx
    rcases List.mem_cons.mp hx with rfl | hx
    · rw [toNat_ofNat (by omega)]
      omega
    · have := hseen x hx
      omega

/-- A block list made from pieces of the payload is accepted. -/
lemma validateBlockList_tiles {p : Bytes} {ps : List Bytes} (ht : Tiles p ps)
    (hsmall : p.length < 2 ^ 64) :
    validateBlockList (refsFrom 0 ps) (UInt64.ofNat p.length) = .ok () := by
  have hfew : ¬(refsFrom 0 ps).length > maxBlocksPerTensor := by
    rw [length_refsFrom]
    exact not_lt.mpr ht.few
  rw [validateBlockList, if_neg hfew]
  have hlen : ps.flatten.length = p.length := by rw [ht.flatten]
  have hsmall' : 0 + ps.flatten.length < 2 ^ 64 := by omega
  have h := validateFrom_refsFrom hsmall' ht.nonempty (List.forall_mem_nil _)
  rw [Nat.zero_add, hlen] at h
  exact h

/-! ### Reassembly -/

lemma slice_pieces {pre b rest : Bytes} : slice (pre ++ (b ++ rest)) pre.length b.length = b := by
  simp [slice]

lemma copyAt_pieces {done : Bytes} (b rest : Bytes) {out : Bytes}
    (hout : out.length = done.length + (b.length + rest.length)) (htake : out.take done.length = done) :
    (copyAt out done.length b).take (done ++ b).length = done ++ b ∧
      (copyAt out done.length b).length = (done ++ b).length + rest.length := by
  have hdone : done.length ≤ out.length := by omega
  refine ⟨?_, ?_⟩
  · rw [copyAt, htake, List.take_left']
    rfl
  · simp only [copyAt, List.length_append, List.length_take, List.length_drop]
    omega

/-- The copy loop writes the pieces behind what is already there. -/
lemma reconstructFrom_refsFrom {get : Digest → Except Error Bytes} {ps : List Bytes}
    (done : Bytes) {out : Bytes} (hget : ∀ b ∈ ps, get (hash b) = .ok b)
    (hsmall : done.length + ps.flatten.length < 2 ^ 64)
    (hout : out.length = done.length + ps.flatten.length) (htake : out.take done.length = done) :
    reconstructFrom get (refsFrom done.length ps) out = .ok (done ++ ps.flatten) := by
  induction ps generalizing done out with
  | nil =>
    have : out = done := by
      rw [← htake, List.take_of_length_le (by simp at hout; omega)]
    simp [refsFrom, reconstructFrom, this]
  | cons b ps ih =>
    simp only [List.flatten_cons, List.length_append] at hsmall hout
    obtain ⟨htake', hout'⟩ := copyAt_pieces b ps.flatten (by omega) htake
    have hoff : (UInt64.ofNat done.length).toNat = done.length :=
      toNat_ofNat (by omega)
    simp only [refsFrom, reconstructFrom, blockRef, hget b (by simp)]
    change (if _ then _ else if _ then _ else _) = _
    have hrest := ih (done ++ b) (fun c hc => hget c (by simp [hc]))
      (by simp only [List.length_append]; omega) hout' htake'
    rw [if_neg (by simp), if_neg (by simp), hoff]
    rw [List.length_append] at hrest
    rw [hrest, List.flatten_cons, List.append_assoc]

/-- Reassembling the pieces of a payload from a provider that has them gives the payload. -/
theorem reconstruct_tiles {p : Bytes} {ps : List Bytes} {get : Digest → Except Error Bytes}
    (ht : Tiles p ps) (hsmall : p.length < 2 ^ 64) (hget : ∀ b ∈ ps, get (hash b) = .ok b) :
    reconstruct (refsFrom 0 ps) (UInt64.ofNat p.length) get = .ok p := by
  rw [reconstruct, validateBlockList_tiles ht hsmall]
  change reconstructFrom get (refsFrom 0 ps) _ = _
  have hlen : ps.flatten.length = p.length := by rw [ht.flatten]
  have hout : (List.replicate p.length (0 : UInt8)).length
      = ([] : Bytes).length + ps.flatten.length := by simp [hlen]
  have h := reconstructFrom_refsFrom [] hget (by simp only [List.length_nil]; omega) hout (by simp)
  rw [toNat_ofNat hsmall]
  simpa [ht.flatten] using h

/-- Reassembly asks the provider for every block. -/
lemma get_of_reconstructFrom {get : Digest → Except Error Bytes} {bs : List BlockRef}
    {out res : Bytes} (h : reconstructFrom get bs out = .ok res) :
    ∀ b ∈ bs, ∃ d, get b.contentHash = .ok d := by
  induction bs generalizing out with
  | nil => simp
  | cons b bs ih =>
    intro c hc
    simp only [reconstructFrom] at h
    cases hd : get b.contentHash with
    | error e => rw [hd] at h; cases h
    | ok d =>
      rw [hd] at h
      change (if _ then _ else if _ then _ else _) = _ at h
      split_ifs at h
      rcases List.mem_cons.mp hc with rfl | hc
      · exact ⟨d, hd⟩
      · exact ih h c hc

lemma mem_refsFrom {ps : List Bytes} (offset : ℕ) {b : Bytes} (hb : b ∈ ps) :
    ∃ r ∈ refsFrom offset ps, r.contentHash = hash b := by
  induction ps generalizing offset with
  | nil => simp at hb
  | cons c ps ih =>
    rcases List.mem_cons.mp hb with rfl | hb
    · exact ⟨blockRef b offset, by simp [refsFrom], rfl⟩
    · obtain ⟨r, hr, hh⟩ := ih (offset + c.length) hb
      exact ⟨r, by simp [refsFrom, hr], hh⟩

/-- A provider that has only right blocks can only give the payload back. -/
theorem eq_of_reconstruct_tiles {p : Bytes} {ps : List Bytes} {get : Digest → Except Error Bytes}
    {res : Bytes} (ht : Tiles p ps) (hsmall : p.length < 2 ^ 64)
    (hget : ∀ b ∈ ps, ∀ d, get (hash b) = .ok d → d = b)
    (h : reconstruct (refsFrom 0 ps) (UInt64.ofNat p.length) get = .ok res) : res = p := by
  have hloop : reconstructFrom get (refsFrom 0 ps)
      (List.replicate (UInt64.ofNat p.length).toNat 0) = .ok res := by
    rw [reconstruct, validateBlockList_tiles ht hsmall] at h
    exact h
  have hall : ∀ b ∈ ps, get (hash b) = .ok b := by
    intro b hb
    obtain ⟨r, hr, hh⟩ := mem_refsFrom 0 hb
    obtain ⟨d, hd⟩ := get_of_reconstructFrom hloop r hr
    rw [hh] at hd
    rw [hd, hget b hb d hd]
  rw [reconstruct_tiles ht hsmall hall] at h
  exact (Except.ok.inj h).symm

end TensorCache
