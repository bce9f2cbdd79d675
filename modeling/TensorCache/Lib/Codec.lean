import Mathlib.Data.List.Basic
import Mathlib.Tactic.Ring
import Mathlib.Tactic.NormNum

/-!
# Binary codecs

Printers produce a list of bytes, readers consume one from the front. The two notions of
agreement used everywhere are `Reads` (whatever is printed is read back, leaving the rest of the
input alone) and `Canonical` (whatever is read is the printed form of the value that came out).
A printer with a reader that agrees is prefix-free, so concatenations of such printers can be
taken apart field by field.

Nothing here depends on the error type or on the values being coded.
-/

namespace Codec

variable {ε α β : Type}

abbrev Bytes := List UInt8

/-- A reader consumes a prefix of its input or fails. -/
abbrev Parser (ε α : Type) := StateT Bytes (Except ε) α

lemma bind_ok {get : Parser ε α} {f : α → Parser ε β} {input rest : Bytes} {a : α}
    (h : get input = .ok (a, rest)) : (get >>= f) input = f a rest := by
  change (get input >>= fun p => f p.1 p.2) = _
  rw [h]
  rfl

lemma bind_eq_ok {get : Parser ε α} {f : α → Parser ε β} {input rest : Bytes} {b : β}
    (h : (get >>= f) input = .ok (b, rest)) :
    ∃ a mid, get input = .ok (a, mid) ∧ f a mid = .ok (b, rest) := by
  change (get input >>= fun p => f p.1 p.2) = _ at h
  cases hget : get input with
  | error e => rw [hget] at h; cases h
  | ok p => exact ⟨p.1, p.2, rfl, by rw [hget] at h; exact h⟩

lemma except_bind_eq_ok {x : Except ε α} {f : α → Except ε β} {b : β} (h : (x >>= f) = .ok b) :
    ∃ a, x = .ok a ∧ f a = .ok b := by
  cases x with
  | error e => cases h
  | ok a => exact ⟨a, rfl, h⟩

@[simp] lemma pure_apply (a : α) (input : Bytes) :
    (pure a : Parser ε α) input = .ok (a, input) := rfl

/-- `get` undoes `put` and leaves the rest of the input alone. -/
def Reads (put : α → Bytes) (get : Parser ε α) : Prop :=
  ∀ a rest, get (put a ++ rest) = .ok (a, rest)

/-- `get` accepts only what `put` prints. -/
def Canonical (put : α → Bytes) (get : Parser ε α) : Prop :=
  ∀ input a rest, get input = .ok (a, rest) → input = put a ++ rest

/-- Reading a printed field and going on. -/
lemma Reads.bind {put : α → Bytes} {get : Parser ε α} (hget : Reads put get) (f : α → Parser ε β)
    (a : α) (rest : Bytes) : (get >>= f) (put a ++ rest) = f a rest :=
  bind_ok (hget a rest)

/-- Reading one field of a longer input: what was read is printed in front of the rest. -/
lemma Canonical.bind {put : α → Bytes} {get : Parser ε α} (hget : Canonical put get)
    {f : α → Parser ε β} {input rest : Bytes} {b : β} (h : (get >>= f) input = .ok (b, rest)) :
    ∃ a mid, input = put a ++ mid ∧ f a mid = .ok (b, rest) := by
  obtain ⟨a, mid, hread, hf⟩ := bind_eq_ok h
  exact ⟨a, mid, hget input a mid hread, hf⟩

/-- No printed value is a proper prefix of another, and printing is injective. -/
def PrefixFree (put : α → Bytes) : Prop :=
  ∀ a b r s, put a ++ r = put b ++ s → a = b ∧ r = s

lemma Reads.prefixFree {put : α → Bytes} {get : Parser ε α} (h : Reads put get) :
    PrefixFree put := by
  intro a b r s heq
  have hb := h b s
  rw [← heq, h a r] at hb
  simpa using hb

lemma PrefixFree.injective {put : α → Bytes} (h : PrefixFree put) : Function.Injective put := by
  intro a b hab
  exact (h a b [] [] (by rw [hab])).1

/-! ### Fixed-width little-endian words -/

/-- The `w` low bytes of `n`, least significant first. -/
def leBytes : ℕ → ℕ → Bytes
  | 0, _ => []
  | w + 1, n => UInt8.ofNat n :: leBytes w (n / 256)

/-- The number with the given bytes, least significant first. -/
def leNat : Bytes → ℕ
  | [] => 0
  | b :: bs => b.toNat + 256 * leNat bs

@[simp] lemma length_leBytes (w n : ℕ) : (leBytes w n).length = w := by
  induction w generalizing n with
  | zero => rfl
  | succ w ih => simp [leBytes, ih]

lemma leNat_lt (bs : Bytes) : leNat bs < 256 ^ bs.length := by
  induction bs with
  | nil => simp [leNat]
  | cons b bs ih =>
    have hb : b.toNat < 256 := b.toNat_lt
    simp only [leNat, List.length_cons, pow_succ]
    omega

lemma leNat_leBytes (w n : ℕ) : leNat (leBytes w n) = n % 256 ^ w := by
  induction w generalizing n with
  | zero => simp [leBytes, leNat, Nat.mod_one]
  | succ w ih =>
    have hlow : n % 2 ^ 8 = n % 256 := rfl
    simp only [leBytes, leNat, ih, UInt8.toNat_ofNat', hlow]
    rw [pow_succ' 256 w, Nat.mod_mul]

lemma leBytes_leNat (bs : Bytes) : leBytes bs.length (leNat bs) = bs := by
  induction bs with
  | nil => rfl
  | cons b bs ih =>
    have hb : b.toNat < 256 := b.toNat_lt
    have hdiv : (b.toNat + 256 * leNat bs) / 256 = leNat bs := by omega
    have hmod : UInt8.ofNat (b.toNat + 256 * leNat bs) = b := by
      apply UInt8.toNat_inj.mp
      rw [UInt8.toNat_ofNat']
      omega
    simp only [leNat, List.length_cons, leBytes, hdiv, hmod, ih]

/-! ### Repetition -/

/-- Print a list of values one after the other. -/
def putAll (put : α → Bytes) (as : List α) : Bytes := as.flatMap put

@[simp] lemma putAll_nil (put : α → Bytes) : putAll put [] = [] := rfl

@[simp] lemma putAll_cons (put : α → Bytes) (a : α) (as : List α) :
    putAll put (a :: as) = put a ++ putAll put as := rfl

/-- Read `n` values one after the other. -/
def getMany (get : Parser ε α) : ℕ → Parser ε (List α)
  | 0 => pure []
  | n + 1 => do
    let a ← get
    let as ← getMany get n
    pure (a :: as)

lemma Reads.getMany {put : α → Bytes} {get : Parser ε α} (h : Reads put get) (as : List α)
    (rest : Bytes) : getMany get as.length (putAll put as ++ rest) = .ok (as, rest) := by
  induction as with
  | nil => rfl
  | cons a as ih =>
    rw [List.length_cons, Codec.getMany, putAll_cons, List.append_assoc,
      bind_ok (h a _), bind_ok ih, pure_apply]

lemma Canonical.getMany {put : α → Bytes} {get : Parser ε α} (h : Canonical put get) :
    ∀ (n : ℕ) (input : Bytes) (as : List α) (rest : Bytes),
      getMany get n input = .ok (as, rest) → as.length = n ∧ input = putAll put as ++ rest := by
  intro n
  induction n with
  | zero =>
    intro input as rest hread
    simp only [Codec.getMany, pure_apply, Except.ok.injEq, Prod.mk.injEq] at hread
    simp [← hread.1, ← hread.2]
  | succ n ih =>
    intro input as rest hread
    obtain ⟨a, mid, hget, hread⟩ := bind_eq_ok hread
    obtain ⟨as', mid', hmany, hread⟩ := bind_eq_ok hread
    obtain ⟨hlen, hmid⟩ := ih mid as' mid' hmany
    simp only [pure_apply, Except.ok.injEq, Prod.mk.injEq] at hread
    obtain ⟨rfl, rfl⟩ := hread
    refine ⟨by simp [hlen], ?_⟩
    rw [h input a mid hget, hmid, putAll_cons, List.append_assoc]

end Codec
