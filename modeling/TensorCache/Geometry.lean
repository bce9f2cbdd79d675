import TensorCache.Wire

/-!
# Tensor geometry

Element types, shapes and memory layouts. Rank and dimensions are bounded when a shape is
built, and products are checked for overflow.
-/

namespace TensorCache

open Codec

/-! ### Element types and small compatibility dimensions -/

inductive Dtype where
  | f64 | f32 | f16 | bf16 | f8 | i64 | i32 | i16 | i8 | u64 | u32 | u16 | u8 | bool
deriving DecidableEq, Repr

namespace Dtype

/-- A stable one-byte tag used in serialization. -/
def code : Dtype → UInt8
  | f64 => 1 | f32 => 2 | f16 => 3 | bf16 => 4 | f8 => 5 | i64 => 6 | i32 => 7
  | i16 => 8 | i8 => 9 | u64 => 10 | u32 => 11 | u16 => 12 | u8 => 13 | bool => 14

def fromCode (c : UInt8) : Except Error Dtype :=
  match c with
  | 1 => .ok f64 | 2 => .ok f32 | 3 => .ok f16 | 4 => .ok bf16 | 5 => .ok f8 | 6 => .ok i64
  | 7 => .ok i32 | 8 => .ok i16 | 9 => .ok i8 | 10 => .ok u64 | 11 => .ok u32 | 12 => .ok u16
  | 13 => .ok u8 | 14 => .ok bool
  | c => .error (.invalidArgument s!"unknown dtype code {c}")

/-- Byte size of one element. -/
def byteSize : Dtype → UInt64
  | f64 | i64 | u64 => 8
  | f32 | i32 | u32 => 4
  | f16 | bf16 | i16 | u16 => 2
  | f8 | i8 | u8 | bool => 1

@[simp] lemma fromCode_code (d : Dtype) : fromCode d.code = .ok d := by
  cases d <;> rfl

lemma code_of_fromCode {c : UInt8} {d : Dtype} (h : fromCode c = .ok d) : d.code = c := by
  unfold fromCode at h
  split at h <;> cases h <;> rfl

end Dtype

inductive Endianness where
  | little | big
deriving DecidableEq, Repr

namespace Endianness

def code : Endianness → UInt8
  | little => 0
  | big => 1

def fromCode (c : UInt8) : Except Error Endianness :=
  match c with
  | 0 => .ok little
  | 1 => .ok big
  | c => .error (.invalidArgument s!"unknown endianness {c}")

@[simp] lemma fromCode_code (e : Endianness) : fromCode e.code = .ok e := by
  cases e <;> rfl

lemma code_of_fromCode {c : UInt8} {e : Endianness} (h : fromCode c = .ok e) : e.code = c := by
  unfold fromCode at h
  split at h <;> cases h <;> rfl

end Endianness

inductive Mutability where
  | immutable | mutable
deriving DecidableEq, Repr

namespace Mutability

def code : Mutability → UInt8
  | immutable => 0
  | mutable => 1

def fromCode (c : UInt8) : Except Error Mutability :=
  match c with
  | 0 => .ok immutable
  | 1 => .ok mutable
  | c => .error (.invalidArgument s!"unknown mutability {c}")

@[simp] lemma fromCode_code (m : Mutability) : fromCode m.code = .ok m := by
  cases m <;> rfl

lemma code_of_fromCode {c : UInt8} {m : Mutability} (h : fromCode c = .ok m) : m.code = c := by
  unfold fromCode at h
  split at h <;> cases h <;> rfl

end Mutability

/-- A quantization scheme identity. -/
inductive QuantKind where
  | none | int4 | int8 | nf4
deriving DecidableEq, Repr

namespace QuantKind

def code : QuantKind → UInt8
  | none => 0
  | int4 => 1
  | int8 => 2
  | nf4 => 3

def fromCode (c : UInt8) : Except Error QuantKind :=
  match c with
  | 0 => .ok none
  | 1 => .ok int4
  | 2 => .ok int8
  | 3 => .ok nf4
  | c => .error (.invalidArgument s!"unknown quant kind {c}")

@[simp] lemma fromCode_code (q : QuantKind) : fromCode q.code = .ok q := by
  cases q <;> rfl

lemma code_of_fromCode {c : UInt8} {q : QuantKind} (h : fromCode c = .ok q) : q.code = c := by
  unfold fromCode at h
  split at h <;> cases h <;> rfl

end QuantKind

/-! ### Checked arithmetic -/

def checkedAdd (a b : UInt64) : Option UInt64 :=
  if a.toNat + b.toNat < 2 ^ 64 then some (a + b) else none

def checkedMul (a b : UInt64) : Option UInt64 :=
  if a.toNat * b.toNat < 2 ^ 64 then some (a * b) else none

lemma toNat_of_checkedMul {a b c : UInt64} (h : checkedMul a b = some c) :
    c.toNat = a.toNat * b.toNat := by
  unfold checkedMul at h
  split_ifs at h with hlt
  cases h
  rw [UInt64.toNat_mul, Nat.mod_eq_of_lt hlt]

/-! ### Shapes -/

def maxRank : ℕ := 32

def maxDim : UInt64 := 0xFFFFFFFF

/-- A validated tensor shape. -/
structure Shape where
  dims : List UInt64
  rank_le : dims.length ≤ maxRank
  dims_le : ∀ d ∈ dims, d ≤ maxDim
deriving DecidableEq

namespace Shape

instance (dims : List UInt64) : Decidable (∀ d ∈ dims, d ≤ maxDim) := List.decidableBAll _ _

/-- Build a shape, rejecting out-of-range rank or dimensions. -/
def new (dims : List UInt64) : Except Error Shape :=
  if hrank : dims.length ≤ maxRank then
    if hdims : ∀ d ∈ dims, d ≤ maxDim then .ok ⟨dims, hrank, hdims⟩
    else .error (.geometry s!"dimension exceeds maximum {maxDim}")
  else .error (.geometry s!"rank {dims.length} exceeds maximum {maxRank}")

def rank (s : Shape) : ℕ := s.dims.length

/-- The `numel` loop: the running product and the dimensions still to multiply in. -/
def numelFrom (n : UInt64) : List UInt64 → Except Error UInt64
  | [] => .ok n
  | d :: ds =>
    match checkedMul n d with
    | some n => numelFrom n ds
    | none => .error (.geometry "shape element count overflow")

/-- The number of logical elements, checked for overflow. -/
def numel (s : Shape) : Except Error UInt64 := numelFrom 1 s.dims

/-- Computed byte length for the given element byte size, checked. -/
def byteLen (s : Shape) (elem : UInt64) : Except Error UInt64 :=
  if elem = 0 ∨ elem > 0xFFFFFFFFFFFFFFFF / 8 then .error (.geometry "invalid element size")
  else do
    let n ← s.numel
    match checkedMul n elem with
    | some b => .ok b
    | none => .error (.geometry "tensor byte length overflow")

lemma new_dims (s : Shape) : new s.dims = .ok s := by
  simp only [new, dif_pos s.rank_le, dif_pos s.dims_le]

lemma dims_of_new {dims : List UInt64} {s : Shape} (h : new dims = .ok s) : s.dims = dims := by
  unfold new at h
  split_ifs at h
  cases h
  rfl

end Shape

/-! ### Layouts -/

/-- Memory layout of a tensor. -/
inductive Layout where
  | rowMajor
  | colMajor
  | strided (strides : Vec UInt64)
deriving DecidableEq

namespace Layout

/-- The storage order tag used in the canonical encoding. -/
def code : Layout → UInt8
  | rowMajor => 0
  | colMajor => 1
  | strided _ => 2

/-- The maximal offset, accumulated dimension by dimension with overflow checks. -/
def maxOffset (acc : UInt64) : List (UInt64 × UInt64) → Except Error UInt64
  | [] => .ok acc
  | (d, s) :: rest =>
    let span := if d = 0 then 0 else d - 1
    match checkedMul span s with
    | none => .error (.geometry "stride product overflow")
    | some off =>
      match checkedAdd acc off with
      | none => .error (.geometry "stride offset overflow")
      | some acc => maxOffset acc rest

/-- Validate the layout against a shape. -/
def validate (l : Layout) (shape : Shape) : Except Error Unit :=
  match l with
  | rowMajor | colMajor => .ok ()
  | strided strides =>
    if strides.val.length ≠ shape.rank then
      .error (.geometry
        s!"strides length {strides.val.length} does not match rank {shape.rank}")
    else if 0 ∈ strides.val then .error (.geometry "zero stride is not cacheable")
    else do
      let _ ← maxOffset 0 (shape.dims.zip strides.val)
      .ok ()

end Layout

end TensorCache
