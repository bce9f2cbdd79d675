import Mathlib.Tactic.Common

/-!
# Typed errors

Every recoverable failure is a value of `Error`: a category and a message.
-/

namespace TensorCache

inductive Error where
  /-- An I/O failure from the host filesystem. -/
  | io (msg : String)
  | invalidArgument (msg : String)
  /-- Impossible rank, shape, product overflow or byte length. -/
  | geometry (msg : String)
  /-- An incompatible key prevented a safe reuse. -/
  | compatibility (msg : String)
  | notFound (msg : String)
  /-- An object with the same canonical identity already exists. -/
  | alreadyExists (msg : String)
  /-- Rejected by admission policy or capacity. -/
  | admissionRejected (msg : String)
  /-- A block or manifest checksum did not match. -/
  | integrity (msg : String)
  | persistence (msg : String)
  | protocol (msg : String)
  | authority (msg : String)
  /-- An illegal residency transition. -/
  | residency (msg : String)
  | backend (msg : String)
  /-- One or more blocks are missing. -/
  | reconstruct (msg : String)
  | accounting (msg : String)
  | internal (msg : String)
deriving DecidableEq, Repr

end TensorCache
