import Mathlib.Tactic.Common

/-!
# Commands whose effects survive their errors

A command over states `σ` either returns a value or an error, and in both cases leaves a state
behind (`EStateM`): a command that fails half-way has done the first half. `Triple P m Q E` is
the Hoare triple for such commands, with one postcondition for the normal return and one for
the error. The rules follow the shape of programs; loops over a list are ruled by an invariant
indexed by the part of the list that is still to be processed.
-/

namespace EStateM

universe u
variable {ε σ α β : Type u}

/-- The state a run leaves behind, whether or not it succeeded. -/
def Result.state : Result ε σ α → σ
  | .ok _ s => s
  | .error _ s => s

@[simp] lemma Result.state_ok (a : α) (s : σ) : (Result.ok a s : Result ε σ α).state = s := rfl

@[simp] lemma Result.state_error (e : ε) (s : σ) :
    (Result.error e s : Result ε σ α).state = s := rfl

/-- From a state with `P`, the command `m` returns with `Q` or fails with `E`. -/
def Triple (P : σ → Prop) (m : EStateM ε σ α) (Q : α → σ → Prop) (E : σ → Prop) : Prop :=
  ∀ s, P s → match m s with
    | .ok a s' => Q a s'
    | .error _ s' => E s'

/-- The command keeps `I`, whether or not it succeeds. -/
def Keeps (I : σ → Prop) (m : EStateM ε σ α) : Prop := Triple I m (fun _ => I) I

/-- Run a command and drop its result, as `let _ = m` does. -/
def ignoring (m : EStateM ε σ α) : EStateM ε σ PUnit := fun s => .ok ⟨⟩ (m s).state

/-- Turn a pure result into a command that leaves the state alone. -/
def ofExcept (x : Except ε α) : EStateM ε σ α := fun s =>
  match x with
  | .ok a => .ok a s
  | .error e => .error e s

/-- Run a command on a part of the state. -/
def zoom {τ : Type u} (view : σ → τ) (update : τ → σ → σ) (m : EStateM ε τ α) : EStateM ε σ α :=
  fun s =>
    match m (view s) with
    | .ok a t => .ok a (update t s)
    | .error e t => .error e (update t s)

variable {P P' : σ → Prop} {Q Q' : α → σ → Prop} {E E' : σ → Prop} {I : σ → Prop}
  {m : EStateM ε σ α}

lemma Triple.state (h : Triple P m (fun _ => I) I) {s : σ} (hs : P s) : I (m s).state := by
  have := h s hs
  cases hm : m s <;> simpa [hm] using this

lemma Triple.ok (h : Triple P m Q E) {s s' : σ} {a : α} (hs : P s) (hm : m s = .ok a s') :
    Q a s' := by
  simpa [hm] using h s hs

lemma Triple.error (h : Triple P m Q E) {s s' : σ} {e : ε} (hs : P s)
    (hm : m s = .error e s') : E s' := by
  simpa [hm] using h s hs

/-- A command that cannot fail returns. -/
lemma Triple.exists_ok (h : Triple P m Q fun _ => False) {s : σ} (hs : P s) :
    ∃ a s', m s = .ok a s' ∧ Q a s' := by
  cases hm : m s with
  | ok a s' => exact ⟨a, s', rfl, h.ok hs hm⟩
  | error e s' => exact (h.error hs hm).elim

lemma Keeps.state (h : Keeps I m) {s : σ} (hs : I s) : I (m s).state := Triple.state h hs

lemma keeps_iff : Keeps I m ↔ ∀ s, I s → I (m s).state := by
  constructor
  · exact fun h s hs => h.state hs
  · intro h s hs
    have := h s hs
    cases hm : m s <;> simpa [hm] using this

/-! ### Taking a run apart -/

@[simp] lemma ofExcept_ok_bind (a : α) (f : α → EStateM ε σ β) : (ofExcept (.ok a) >>= f) = f a :=
  rfl

@[simp] lemma ofExcept_error_bind (e : ε) (f : α → EStateM ε σ β) :
    (ofExcept (.error e) >>= f) = throw e :=
  rfl

/-- The second command begins where the first one has returned. -/
lemma bind_of_ok {f : α → EStateM ε σ β} {s s' : σ} {a : α} (h : m s = .ok a s') :
    (m >>= f) s = f a s' := by
  change EStateM.bind m f s = _
  rw [EStateM.bind, h]

lemma bind_of_error {f : α → EStateM ε σ β} {s s' : σ} {e : ε} (h : m s = .error e s') :
    (m >>= f) s = .error e s' := by
  change EStateM.bind m f s = _
  rw [EStateM.bind, h]

lemma bind_eq_ok {f : α → EStateM ε σ β} {s s' : σ} {b : β} (h : (m >>= f) s = .ok b s') :
    ∃ a s₁, m s = .ok a s₁ ∧ f a s₁ = .ok b s' := by
  change EStateM.bind m f s = _ at h
  unfold EStateM.bind at h
  cases hm : m s with
  | ok a s₁ => exact ⟨a, s₁, rfl, by rw [hm] at h; exact h⟩
  | error e s₁ => rw [hm] at h; cases h

lemma bind_eq_error {f : α → EStateM ε σ β} {s s' : σ} {e : ε}
    (h : (m >>= f) s = .error e s') :
    m s = .error e s' ∨ ∃ a s₁, m s = .ok a s₁ ∧ f a s₁ = .error e s' := by
  change EStateM.bind m f s = _ at h
  unfold EStateM.bind at h
  cases hm : m s with
  | ok a s₁ => exact Or.inr ⟨a, s₁, rfl, by rw [hm] at h; exact h⟩
  | error e' s₁ => rw [hm] at h; cases h; exact Or.inl rfl

section Zoom

variable {τ : Type u} {view : σ → τ} {update : τ → σ → σ} {c : EStateM ε τ α} {s s' : σ} {t : τ}

lemma zoom_of_ok {a : α} (h : c (view s) = .ok a t) :
    zoom view update c s = .ok a (update t s) := by
  simp only [zoom, h]

lemma zoom_of_error {e : ε} (h : c (view s) = .error e t) :
    zoom view update c s = .error e (update t s) := by
  simp only [zoom, h]

lemma zoom_eq_ok {a : α} (h : zoom view update c s = .ok a s') :
    ∃ t, c (view s) = .ok a t ∧ s' = update t s := by
  unfold zoom at h
  cases hc : c (view s) with
  | ok b t =>
    rw [hc] at h
    cases h
    exact ⟨t, rfl, rfl⟩
  | error e t => rw [hc] at h; cases h

lemma zoom_eq_error {e : ε} (h : zoom view update c s = .error e s') :
    ∃ t, c (view s) = .error e t ∧ s' = update t s := by
  unfold zoom at h
  cases hc : c (view s) with
  | ok b t => rw [hc] at h; cases h
  | error e' t =>
    rw [hc] at h
    cases h
    exact ⟨t, rfl, rfl⟩

lemma zoom_state : (zoom view update c s).state = update (c (view s)).state s := by
  unfold zoom
  cases c (view s) <;> rfl

/-- A command on a part of the state keeps what does not depend on that part. -/
lemma zoom_triple {Q : σ → Prop} (h : ∀ t, Q (update t s)) :
    Triple (· = s) (zoom view update c) (fun _ => Q) Q := by
  rintro s rfl
  unfold zoom
  cases c (view s) with
  | ok a t => exact h t
  | error e t => exact h t

end Zoom

/-! ### Structural rules -/

lemma Triple.conseq (h : Triple P' m Q' E') (hP : ∀ s, P s → P' s)
    (hQ : ∀ a s, Q' a s → Q a s) (hE : ∀ s, E' s → E s) : Triple P m Q E := by
  intro s hs
  have := h s (hP s hs)
  cases hm : m s with
  | ok a s' => exact hQ a s' (by simpa [hm] using this)
  | error e s' => exact hE s' (by simpa [hm] using this)

lemma Triple.pre (h : Triple P' m Q E) (hP : ∀ s, P s → P' s) : Triple P m Q E :=
  h.conseq hP (fun _ _ hq => hq) (fun _ he => he)

lemma Triple.post (h : Triple P m Q' E) (hQ : ∀ a s, Q' a s → Q a s) : Triple P m Q E :=
  h.conseq (fun _ hs => hs) hQ (fun _ he => he)

/-- A command is run in a known state: the precondition may mention it. -/
lemma Triple.of_state (h : ∀ s₀, P s₀ → Triple (· = s₀) m Q E) : Triple P m Q E :=
  fun s hs => h s hs s rfl

lemma Triple.pure {a : α} (h : ∀ s, P s → Q a s) :
    Triple P (Pure.pure a : EStateM ε σ α) Q E :=
  fun s hs => h s hs

lemma Triple.throw {e : ε} (h : ∀ s, P s → E s) : Triple P (throw e : EStateM ε σ α) Q E :=
  fun s hs => h s hs

lemma Triple.bind {R : β → σ → Prop} {f : α → EStateM ε σ β} (hm : Triple P m Q E)
    (hf : ∀ a, Triple (Q a) (f a) R E) : Triple P (m >>= f) R E := by
  intro s hs
  have h₁ := hm s hs
  change match EStateM.bind m f s with | .ok b s' => R b s' | .error _ s' => E s'
  unfold EStateM.bind
  cases hrun : m s with
  | ok a s' =>
    rw [hrun] at h₁
    exact hf a s' h₁
  | error e s' =>
    rw [hrun] at h₁
    exact h₁

lemma Triple.get {Q : σ → σ → Prop} (h : ∀ s, P s → Q s s) :
    Triple P (MonadState.get : EStateM ε σ σ) Q E :=
  fun s hs => h s hs

/-- Reading the state: from here on it is a known state. -/
lemma Triple.get_bind {f : σ → EStateM ε σ α} (h : ∀ s, P s → Triple (· = s) (f s) Q E) :
    Triple P (MonadState.get >>= f) Q E :=
  fun s hs => h s hs s rfl

lemma Triple.modify {Q : PUnit → σ → Prop} {f : σ → σ} (h : ∀ s, P s → Q ⟨⟩ (f s)) :
    Triple P (modify f : EStateM ε σ PUnit) Q E :=
  fun s hs => h s hs

lemma Triple.ofExcept {x : Except ε α} (hok : ∀ a s, x = .ok a → P s → Q a s)
    (herr : ∀ s, P s → E s) : Triple P (ofExcept x) Q E := by
  intro s hs
  cases x with
  | ok a => exact hok a s rfl hs
  | error e => exact herr s hs

lemma Triple.ignoring {Q : PUnit → σ → Prop} (h : Triple P m (fun _ => Q ⟨⟩) (Q ⟨⟩)) :
    Triple P (ignoring m) Q E :=
  fun _ hs => h.state hs

lemma Triple.ite {c : Prop} [Decidable c] {m₁ m₂ : EStateM ε σ α}
    (h₁ : c → Triple P m₁ Q E) (h₂ : ¬c → Triple P m₂ Q E) :
    Triple P (if c then m₁ else m₂) Q E := by
  split_ifs with hc
  · exact h₁ hc
  · exact h₂ hc

/-- The loop rule: `I rest` holds whenever `rest` is what remains to be processed. -/
lemma Triple.forM {I : List β → σ → Prop} {f : β → EStateM ε σ PUnit}
    (h : ∀ b rest, Triple (I (b :: rest)) (f b) (fun _ => I rest) E) (bs : List β) :
    Triple (I bs) (bs.forM f) (fun _ => I []) E := by
  induction bs with
  | nil => exact Triple.pure fun s hs => hs
  | cons b bs ih => exact Triple.bind (h b bs) fun _ => ih

lemma get_bind_apply (f : σ → EStateM ε σ α) (s : σ) :
    ((get : EStateM ε σ σ) >>= f) s = f s s := rfl

/-- Repackaging what a command returns leaves its effect alone. -/
lemma state_bind_pure (m : EStateM ε σ α) (f : α → β) (s : σ) :
    ((m >>= fun a => Pure.pure (f a)) s).state = (m s).state := by
  change (EStateM.bind m _ s).state = _
  unfold EStateM.bind
  cases m s <;> rfl

/-! ### Commands that keep a property -/

lemma Keeps.from_state {s₀ : σ} (h : Keeps I m) (h₀ : I s₀) :
    Triple (· = s₀) m (fun _ => I) I := by
  rintro s rfl
  exact h s h₀

lemma Keeps.bind {f : α → EStateM ε σ β} (hm : Keeps I m) (hf : ∀ a, Keeps I (f a)) :
    Keeps I (m >>= f) :=
  Triple.bind hm hf

lemma Keeps.get_bind {f : σ → EStateM ε σ α} (h : ∀ s, Keeps I (f s)) :
    Keeps I (MonadState.get >>= f) :=
  Triple.get_bind fun s hs => (h s).from_state hs

lemma Keeps.and {J : σ → Prop} (hI : Keeps I m) (hJ : Keeps J m) :
    Keeps (fun s => I s ∧ J s) m :=
  keeps_iff.mpr fun _ hs => ⟨hI.state hs.1, hJ.state hs.2⟩

lemma Keeps.ofExcept {x : Except ε α} : Keeps I (ofExcept x) :=
  Triple.ofExcept (fun _ _ _ hs => hs) fun _ hs => hs

lemma Keeps.ite {c : Prop} [Decidable c] {m₁ m₂ : EStateM ε σ α} (h₁ : Keeps I m₁)
    (h₂ : Keeps I m₂) : Keeps I (if c then m₁ else m₂) :=
  Triple.ite (fun _ => h₁) fun _ => h₂

lemma Keeps.modify {f : σ → σ} (h : ∀ s, I s → I (f s)) :
    Keeps I (modify f : EStateM ε σ PUnit) :=
  Triple.modify h

lemma Keeps.zoom {τ : Type u} {view : σ → τ} {update : τ → σ → σ} {m : EStateM ε τ α}
    (h : ∀ t s, I s → I (update t s)) : Keeps I (zoom view update m) :=
  keeps_iff.mpr fun s hs => by
    rw [zoom_state]
    exact h _ s hs

/-- A command on a part of the state keeps what the part keeps. -/
lemma Keeps.zoom_part {τ : Type u} {view : σ → τ} {update : τ → σ → σ} {m : EStateM ε τ α}
    {J : τ → Prop} (hm : Keeps J m) (hview : ∀ s, I s → J (view s))
    (hupdate : ∀ t s, J t → I s → I (update t s)) : Keeps I (EStateM.zoom view update m) := by
  refine keeps_iff.mpr fun s hs => ?_
  rw [zoom_state]
  exact hupdate _ s (hm.state (hview s hs)) hs

lemma Keeps.pure {a : α} : Keeps I (Pure.pure a : EStateM ε σ α) := Triple.pure fun _ hs => hs

lemma Keeps.throw {e : ε} : Keeps I (throw e : EStateM ε σ α) := Triple.throw fun _ hs => hs

lemma Keeps.ignoring (h : Keeps I m) : Keeps I (ignoring m) := Triple.ignoring h

lemma Keeps.forM {f : β → EStateM ε σ PUnit} {bs : List β} (h : ∀ b ∈ bs, Keeps I (f b)) :
    Keeps I (bs.forM f) := by
  induction bs with
  | nil => exact Keeps.pure
  | cons b bs ih =>
    exact Keeps.bind (h b (by simp)) fun _ => ih fun b' hb' => h b' (by simp [hb'])

end EStateM
