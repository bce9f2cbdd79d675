import Mathlib.Tactic.Common

/-!
# Journals and crashes

A journal is the list of steps a process has taken on some durable state. Replaying it gives the
current state. A crash leaves the state after some prefix of the journal, or the state in which
the next step was cut short; `Crashes` is the relation between a journal and the states it can
leave behind.
-/

universe u v

/-- Steps on durable states: what a step does, and the shorter steps that remain of it when it
is interrupted. -/
class DurableStep (τ : Type u) (σ : outParam (Type v)) where
  apply : τ → σ → σ
  torn : τ → ℕ → Option τ

namespace DurableStep

variable {τ : Type u} {σ : Type v} [DurableStep τ σ]

/-- The state after all steps of a journal. -/
def replay (journal : List τ) (s : σ) : σ := journal.foldl (fun s t => apply t s) s

@[simp] lemma replay_nil (s : σ) : replay ([] : List τ) s = s := rfl

@[simp] lemma replay_append_singleton (journal : List τ) (t : τ) (s : σ) :
    replay (journal ++ [t]) s = apply t (replay journal s) := by
  simp [replay]

/-- The states a crash can leave behind while the journal is written. -/
inductive Crashes : σ → List τ → σ → Prop where
  | here (s : σ) (journal : List τ) : Crashes s journal s
  | torn {s : σ} {t t' : τ} {k : ℕ} (journal : List τ) (h : torn t k = some t') :
    Crashes s (t :: journal) (apply t' s)
  | later {s s' : σ} {t : τ} {journal : List τ} (h : Crashes (apply t s) journal s') :
    Crashes s (t :: journal) s'

/-- One more step adds the states that step can leave behind. -/
lemma Crashes.append_singleton {journal : List τ} {t : τ} {s s' : σ}
    (h : Crashes s (journal ++ [t]) s') :
    Crashes s journal s' ∨ s' = apply t (replay journal s) ∨
      ∃ k t', DurableStep.torn t k = some t' ∧ s' = apply t' (replay journal s) := by
  induction journal generalizing s with
  | nil =>
    cases h with
    | here => exact Or.inl (.here _ _)
    | torn _ ht => exact Or.inr (Or.inr ⟨_, _, ht, rfl⟩)
    | later h =>
      cases h
      exact Or.inr (Or.inl rfl)
  | cons u journal ih =>
    cases h with
    | here => exact Or.inl (.here _ _)
    | torn _ ht => exact Or.inl (.torn _ ht)
    | later h =>
      rcases ih h with h | h | h
      · exact Or.inl (.later h)
      · exact Or.inr (Or.inl h)
      · exact Or.inr (Or.inr h)

lemma crashes_replay (journal : List τ) (s : σ) : Crashes s journal (replay journal s) := by
  induction journal generalizing s with
  | nil => exact .here _ _
  | cons t journal ih => exact .later (ih (apply t s))

/-- A crash between two steps. -/
lemma crashes_take (journal : List τ) (k : ℕ) (s : σ) :
    Crashes s journal (replay (journal.take k) s) := by
  induction journal generalizing k s with
  | nil =>
    rw [List.take_nil]
    exact .here _ _
  | cons t journal ih =>
    cases k with
    | zero => exact .here _ _
    | succ k => exact .later (ih k (apply t s))

end DurableStep
