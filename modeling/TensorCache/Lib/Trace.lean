import TensorCache.Lib.Process

/-!
# What one program among many has done

The history of a system mixes the answers of all its tasks. If every task has a number of its own,
the answers of one task are a run of its program so far, whatever the others do
(`Numbered.traced`). What one of many programs has done can then be shown of this program alone.
-/

namespace Process

variable {Req : Type} {Resp : Req → Type} {α β τ σ ρ : Type}

/-- A question and its answer. -/
abbrev Answer (Resp : Req → Type) : Type := (r : Req) × Resp r

namespace Program

/-- With these answers, the oldest first, a program becomes another one. -/
inductive Trace : Program Resp α → List (Answer Resp) → Program Resp α → Prop
  | nil (p : Program Resp α) : Trace p [] p
  | cons {r : Req} {k : Resp r → Program Resp α} {q : Program Resp α} {l : List (Answer Resp)}
      (x : Resp r) (h : Trace (k x) l q) : Trace (.ask r k) (⟨r, x⟩ :: l) q

namespace Trace

variable {p q : Program Resp α} {l : List (Answer Resp)}

lemma snoc {r : Req} {k : Resp r → Program Resp α} (h : Trace p l (.ask r k)) (x : Resp r) :
    Trace p (l ++ [⟨r, x⟩]) (k x) := by
  generalize hq : Program.ask r k = q at h
  induction h with
  | nil p =>
    subst hq
    exact .cons x (.nil _)
  | cons y h ih => exact .cons y (ih hq)

lemma of_ret {a : α} (h : Trace (.ret a : Program Resp α) l q) : l = [] ∧ q = .ret a := by
  cases h with
  | nil => exact ⟨rfl, rfl⟩

/-- A trace of two programs, one after the other, is still in the first one or has left it. -/
lemma of_bind {p : Program Resp α} {f : α → Program Resp β} {q : Program Resp β}
    (h : Trace (p >>= f) l q) :
    (∃ r k, Trace p l (.ask r k) ∧ q = (.ask r k >>= f)) ∨
      ∃ a l₁ l₂, l = l₁ ++ l₂ ∧ Trace p l₁ (.ret a) ∧ Trace (f a) l₂ q := by
  induction p generalizing l with
  | ret a => exact .inr ⟨a, [], l, rfl, .nil _, h⟩
  | ask r k ih =>
    change Trace (.ask r fun x => (k x).bind f) l q at h
    cases h with
    | nil => exact .inl ⟨r, k, .nil _, rfl⟩
    | cons x h =>
      rcases ih x h with ⟨r', k', hp, hq⟩ | ⟨a, l₁, l₂, rfl, hp, hf⟩
      · exact .inl ⟨r', k', .cons x hp, hq⟩
      · exact .inr ⟨a, ⟨r, x⟩ :: l₁, l₂, rfl, .cons x hp, hf⟩

/-- A program that asks one question and returns the answer. -/
lemma of_request {r : Req} {q : Program Resp (Resp r)} (h : Trace (request r) l q) :
    l = [] ∧ q = request r ∨ ∃ x, l = [⟨r, x⟩] ∧ q = .ret x := by
  cases h with
  | nil => exact .inl ⟨rfl, rfl⟩
  | cons x h =>
    obtain ⟨rfl, rfl⟩ := of_ret h
    exact .inr ⟨x, rfl, rfl⟩

end Trace

end Program

/-! ### The answers of one task -/

section Answers

variable (number : τ → ℕ)

/-- The answers of the task with the number `n`, the oldest first. -/
def answers (n : ℕ) : List (Event τ Resp ρ) → List (Answer Resp)
  | [] => []
  | .did t r x :: past => answers n past ++ if number t = n then [⟨r, x⟩] else []
  | .finished _ _ :: past => answers n past

variable {number} {n : ℕ} {past : List (Event τ Resp ρ)}

lemma answers_of_lt (h : ∀ t r x, Event.did t r x ∈ past → number t < n) :
    answers number n past = [] := by
  induction past with
  | nil => rfl
  | cons ev past ih =>
    have hpast : answers number n past = [] :=
      ih fun t r x hmem => h t r x (List.mem_cons_of_mem _ hmem)
    cases ev with
    | did t r x =>
      have hne : number t ≠ n := (h t r x List.mem_cons_self).ne
      simp [answers, hpast, hne]
    | finished t a => exact hpast

end Answers

/-! ### Numbered tasks -/

/-- A task that arrives gets the next number, and its program is determined by the task. -/
structure Numbered (W : World τ σ Resp ρ) (number : τ → ℕ) (next : σ → ℕ)
    (prog : τ → Program Resp ρ) : Prop where
  arrives : ∀ s t p s', W.arrives s t p s' → p = prog t ∧ number t = next s ∧ next s' = next s + 1
  does : ∀ t r s x s', W.does t r s x s' → next s' = next s
  finishes : ∀ t a s s', W.finishes t a s s' → next s' = next s
  moves : ∀ s s', W.moves s s' → next s' = next s

/-- The answers of every task are a run of its program up to now, and up to its end if it has
finished. -/
structure Traced (number : τ → ℕ) (next : σ → ℕ) (prog : τ → Program Resp ρ)
    (c : Config τ σ Resp ρ) : Prop where
  tasks : ∀ p ∈ c.tasks, number p.1 < next c.scene.now ∧
    (prog p.1).Trace (answers number (number p.1) c.scene.past) p.2
  distinct : (c.tasks.map fun p => number p.1).Nodup
  did : ∀ t r x, .did t r x ∈ c.scene.past → number t < next c.scene.now
  finished : ∀ t a, .finished t a ∈ c.scene.past → number t < next c.scene.now ∧
    (∀ p ∈ c.tasks, number p.1 ≠ number t) ∧
    (prog t).Trace (answers number (number t) c.scene.past) (.ret a)

section Numbered

variable {W : World τ σ Resp ρ} {number : τ → ℕ} {next : σ → ℕ} {prog : τ → Program Resp ρ}
  {c c' : Config τ σ Resp ρ}

/-- The other tasks have other numbers. -/
lemma Traced.other {s : σ} {past : List (Event τ Resp ρ)} {l l' : List (τ × Program Resp ρ)}
    {t : τ} {p : Program Resp ρ} (h : Traced number next prog ⟨⟨s, past⟩, l ++ (t, p) :: l'⟩) :
    ∀ q ∈ l ++ l', number q.1 ≠ number t := by
  have hdistinct := h.distinct
  simp only [List.map_append, List.map_cons, List.nodup_append, List.nodup_cons] at hdistinct
  intro q hq
  rcases List.mem_append.mp hq with hq | hq
  · exact hdistinct.2.2 _ (List.mem_map_of_mem hq) _ List.mem_cons_self
  · intro heq
    exact hdistinct.2.1.1 (heq ▸ List.mem_map_of_mem hq)

lemma mem_insert_middle {γ : Type} {x y : γ} {l l' : List γ} :
    x ∈ l ++ y :: l' ↔ x = y ∨ x ∈ l ++ l' := by
  simp only [List.mem_append, List.mem_cons]
  tauto

lemma Numbered.act (hW : Numbered W number next prog) {s s' : σ} {past : List (Event τ Resp ρ)}
    {l l' : List (τ × Program Resp ρ)} {t : τ} {r : Req} {k : Resp r → Program Resp ρ}
    {x : Resp r} (h : Traced number next prog ⟨⟨s, past⟩, l ++ (t, .ask r k) :: l'⟩)
    (hdoes : W.does t r s x s') :
    Traced number next prog ⟨⟨s', .did t r x :: past⟩, l ++ (t, k x) :: l'⟩ := by
  have hnext : next s' = next s := hW.does _ _ _ _ _ hdoes
  obtain ⟨hlt, htrace⟩ := h.tasks (t, .ask r k) (by simp)
  change number t < next s at hlt
  have hothers : ∀ n, number t ≠ n →
      answers number n (.did t r x :: past) = answers number n past := by
    intro n hne
    rw [answers, if_neg hne, List.append_nil]
  constructor
  · intro q hq
    rcases mem_insert_middle.mp hq with rfl | hq
    · refine ⟨hnext ▸ hlt, ?_⟩
      change (prog t).Trace (answers number (number t) past ++ if number t = number t then _ else _) _
      rw [if_pos rfl]
      exact htrace.snoc x
    · obtain ⟨hlt', htrace'⟩ := h.tasks q (mem_insert_middle.mpr (.inr hq))
      refine ⟨hnext ▸ hlt', ?_⟩
      rw [hothers _ (h.other q hq).symm]
      exact htrace'
  · simpa only [List.map_append, List.map_cons] using h.distinct
  · intro t' r' x' hmem
    change number t' < next s'
    rw [hnext]
    rcases List.mem_cons.mp hmem with heq | hmem
    · cases heq
      exact hlt
    · exact h.did t' r' x' hmem
  · intro t' a hmem
    rcases List.mem_cons.mp hmem with heq | hmem
    · cases heq
    · obtain ⟨hlt', hgone, htrace'⟩ := h.finished t' a hmem
      have hne : number t ≠ number t' := hgone (t, .ask r k) (by simp)
      refine ⟨hnext ▸ hlt', fun q hq => ?_, ?_⟩
      · rcases mem_insert_middle.mp hq with rfl | hq
        · exact hne
        · exact hgone q (mem_insert_middle.mpr (.inr hq))
      · rw [hothers _ hne]
        exact htrace'

lemma Numbered.finish (hW : Numbered W number next prog) {s s' : σ} {past : List (Event τ Resp ρ)}
    {l l' : List (τ × Program Resp ρ)} {t : τ} {a : ρ}
    (h : Traced number next prog ⟨⟨s, past⟩, l ++ (t, .ret a) :: l'⟩)
    (hfinish : W.finishes t a s s') :
    Traced number next prog ⟨⟨s', .finished t a :: past⟩, l ++ l'⟩ := by
  have hnext : next s' = next s := hW.finishes _ _ _ _ hfinish
  obtain ⟨hlt, htrace⟩ := h.tasks (t, .ret a) (by simp)
  constructor
  · intro q hq
    obtain ⟨hlt', htrace'⟩ := h.tasks q (mem_insert_middle.mpr (.inr hq))
    exact ⟨hnext ▸ hlt', htrace'⟩
  · have hdistinct := h.distinct
    simp only [List.map_append, List.map_cons, List.nodup_append, List.nodup_cons] at hdistinct ⊢
    refine ⟨hdistinct.1, hdistinct.2.1.2, fun n hn m hm => ?_⟩
    exact hdistinct.2.2 n hn m (List.mem_cons_of_mem _ hm)
  · intro t' r' x' hmem
    rcases List.mem_cons.mp hmem with heq | hmem
    · cases heq
    · exact hnext ▸ h.did t' r' x' hmem
  · intro t' a' hmem
    rcases List.mem_cons.mp hmem with heq | hmem
    · cases heq
      exact ⟨hnext ▸ hlt, h.other, htrace⟩
    · obtain ⟨hlt', hgone, htrace'⟩ := h.finished t' a' hmem
      exact ⟨hnext ▸ hlt', fun q hq => hgone q (mem_insert_middle.mpr (.inr hq)), htrace'⟩

lemma Numbered.arrive (hW : Numbered W number next prog) {s s' : σ} {past : List (Event τ Resp ρ)}
    {l : List (τ × Program Resp ρ)} {t : τ} {p : Program Resp ρ}
    (h : Traced number next prog ⟨⟨s, past⟩, l⟩) (harrive : W.arrives s t p s') :
    Traced number next prog ⟨⟨s', past⟩, (t, p) :: l⟩ := by
  obtain ⟨rfl, hnumber, hnext⟩ := hW.arrives _ _ _ _ harrive
  have hlater : ∀ n, n < next s → n < next s' := by
    intro n hn
    omega
  constructor
  · intro q hq
    rcases List.mem_cons.mp hq with rfl | hq
    · have hfresh : answers number (number t) past = [] := by
        apply answers_of_lt
        intro t' r x hmem
        rw [hnumber]
        exact h.did t' r x hmem
      change number t < next s' ∧ (prog t).Trace (answers number (number t) past) _
      rw [hfresh]
      exact ⟨by omega, .nil _⟩
    · obtain ⟨hlt, htrace⟩ := h.tasks q hq
      exact ⟨hlater _ hlt, htrace⟩
  · simp only [List.map_cons, List.nodup_cons]
    refine ⟨fun hmem => ?_, h.distinct⟩
    obtain ⟨q, hq, heq⟩ := List.mem_map.mp hmem
    have hlt : number q.1 < next s := (h.tasks q hq).1
    omega
  · intro t' r x hmem
    exact hlater _ (h.did t' r x hmem)
  · intro t' a hmem
    obtain ⟨hlt, hgone, htrace⟩ := h.finished t' a hmem
    refine ⟨hlater _ hlt, fun q hq => ?_, htrace⟩
    rcases List.mem_cons.mp hq with rfl | hq
    · change number t ≠ number t'
      change number t' < next s at hlt
      omega
    · exact hgone q hq

lemma Numbered.step (hW : Numbered W number next prog) (h : Traced number next prog c)
    (hstep : Step W c c') : Traced number next prog c' := by
  cases hstep with
  | act l l' hdoes => exact hW.act h hdoes
  | finish l l' hfinish => exact hW.finish h hfinish
  | arrive l harrive => exact hW.arrive h harrive
  | @move s s' past l hmove =>
    have hnext : next s' = next s := hW.moves _ _ hmove
    obtain ⟨htasks, hdistinct, hdid, hfinished⟩ := h
    simp only [← hnext] at htasks hdid hfinished
    exact ⟨htasks, hdistinct, hdid, hfinished⟩

/-- The answers of a task, whatever others did in between, are a run of its program. -/
theorem Numbered.traced (hW : Numbered W number next prog) {s : σ}
    (h : Steps W ⟨⟨s, []⟩, []⟩ c) : Traced number next prog c := by
  induction h with
  | refl => constructor <;> simp
  | tail _ hstep ih => exact hW.step ih hstep

end Numbered

/-! ### Invariants that look at no program -/

/-- Every step keeps the invariant, whatever the programs are. -/
structure Inductive (W : World τ σ Resp ρ) (I : Scene τ σ Resp ρ → Prop) : Prop where
  does : ∀ t r s x s' past, I ⟨s, past⟩ → W.does t r s x s' → I ⟨s', .did t r x :: past⟩
  finishes : ∀ t a s s' past, I ⟨s, past⟩ → W.finishes t a s s' → I ⟨s', .finished t a :: past⟩
  arrives : ∀ s t p s' past, I ⟨s, past⟩ → W.arrives s t p s' → I ⟨s', past⟩
  moves : ∀ s s' past, I ⟨s, past⟩ → W.moves s s' → I ⟨s', past⟩

theorem Inductive.run {W : World τ σ Resp ρ} {I : Scene τ σ Resp ρ → Prop} (hI : Inductive W I)
    {c c' : Config τ σ Resp ρ} (h : Steps W c c') (hc : I c.scene) : I c'.scene := by
  induction h with
  | refl => exact hc
  | tail _ hstep ih =>
    cases hstep with
    | act l l' hdoes => exact hI.does _ _ _ _ _ _ ih hdoes
    | finish l l' hfinish => exact hI.finishes _ _ _ _ _ ih hfinish
    | arrive l harrive => exact hI.arrives _ _ _ _ _ ih harrive
    | move l hmove => exact hI.moves _ _ _ ih hmove

end Process
