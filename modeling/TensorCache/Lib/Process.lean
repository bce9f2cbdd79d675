import Mathlib.Data.List.Infix
import Mathlib.Logic.Relation

/-!
# Interleaved programs

A program returns, or asks its surroundings something and goes on with the answer. Many programs
run at once over a shared state; one step answers one question of one of them. Everything that
happens is kept in a history, newest first.

`Wp` is the weakest precondition of a program among others. While it waits for its next turn, the
shared state may move on, but only along a relation `R` that all steps respect and that keeps an
invariant `I`. `System.run_rule` puts the programs together: if every program that arrives is safe,
the invariant holds in every configuration that can be reached.
-/

namespace Process

/-- A program whose questions `r : Req` are answered in `Resp r`. -/
inductive Program {Req : Type} (Resp : Req → Type) (α : Type) : Type
  | ret (a : α)
  | ask (r : Req) (k : Resp r → Program Resp α)

variable {Req : Type} {Resp : Req → Type} {α β τ σ ρ : Type}

namespace Program

def bind : Program Resp α → (α → Program Resp β) → Program Resp β
  | ret a, f => f a
  | ask r k, f => ask r fun x => (k x).bind f

instance : Monad (Program Resp) where
  pure := ret
  bind := bind

/-- Ask one question. -/
def request (r : Req) : Program Resp (Resp r) := ask r ret

@[simp] lemma pure_bind' (a : α) (f : α → Program Resp β) : (pure a >>= f) = f a := rfl

@[simp] lemma request_bind (r : Req) (f : Resp r → Program Resp β) :
    (request r >>= f) = ask r f := rfl

/-- All questions of a program satisfy `P`, and all its results `Q`. -/
def Asks (P : Req → Prop) (Q : α → Prop) : Program Resp α → Prop
  | ret a => Q a
  | ask r k => P r ∧ ∀ x, (k x).Asks P Q

section Asks

variable {P : Req → Prop} {Q : α → Prop} {ε : Type}

lemma Asks.bind {p : Program Resp α} {f : α → Program Resp β} {Q' : β → Prop} (hp : p.Asks P Q)
    (hf : ∀ a, Q a → (f a).Asks P Q') : (p >>= f).Asks P Q' := by
  induction p with
  | ret a => exact hf a hp
  | ask r k ih => exact ⟨hp.1, fun x => ih x (hp.2 x)⟩

lemma Asks.request {r : Req} (h : P r) : (request r).Asks P (fun _ : Resp r => True) :=
  ⟨h, fun _ => trivial⟩

lemma Asks.mono {p : Program Resp α} {Q' : α → Prop} (hQ : ∀ a, Q a → Q' a) (hp : p.Asks P Q) :
    p.Asks P Q' := by
  induction p with
  | ret a => exact hQ a hp
  | ask r k ih => exact ⟨hp.1, fun x => ih x (hp.2 x)⟩

/-- A program that may fail: an error ends it. -/
lemma Asks.bindExcept {p : ExceptT ε (Program Resp) α} {f : α → ExceptT ε (Program Resp) β}
    {Q : Except ε α → Prop} {Q' : Except ε β → Prop} (hp : Asks P Q p)
    (hok : ∀ a, Q (.ok a) → Asks P Q' (f a)) (herror : ∀ e, Q (.error e) → Q' (.error e)) :
    Asks P Q' (p >>= f : ExceptT ε (Program Resp) β) := by
  refine Asks.bind (Q := Q) hp fun x hx => ?_
  cases x with
  | ok a => exact hok a hx
  | error e => exact herror e hx

end Asks

/-! ### One run of one program -/

/-- A program runs from one state to another, its questions answered as `does` says. -/
inductive Runs (does : (r : Req) → σ → Resp r → σ → Prop) : Program Resp α → σ → α → σ → Prop
  | ret (a : α) (s : σ) : Runs does (.ret a) s a s
  | ask {r : Req} {k : Resp r → Program Resp α} {x : Resp r} {s s₁ s₂ : σ} {a : α}
      (h : does r s x s₁) (hk : Runs does (k x) s₁ a s₂) : Runs does (.ask r k) s a s₂

section Runs

variable {does : (r : Req) → σ → Resp r → σ → Prop} {s s₂ : σ} {ε : Type}

lemma Runs.of_pure {a b : α} (h : (pure a : Program Resp α).Runs does s b s₂) :
    b = a ∧ s₂ = s := by
  cases h
  exact ⟨rfl, rfl⟩

lemma Runs.of_request {r : Req} {x : Resp r} (h : (request r).Runs does s x s₂) :
    does r s x s₂ := by
  cases h with
  | ask hdoes hk =>
    cases hk
    exact hdoes

lemma Runs.bind {p : Program Resp α} {f : α → Program Resp β} {a : α} {b : β} {s₁ : σ}
    (hp : p.Runs does s a s₁) (hf : (f a).Runs does s₁ b s₂) : (p >>= f).Runs does s b s₂ := by
  induction hp with
  | ret a s => exact hf
  | ask hstep _ ih => exact .ask hstep (ih hf)

/-- A run of two programs, one after the other. -/
lemma Runs.of_bind {p : Program Resp α} {f : α → Program Resp β} {b : β}
    (h : (p >>= f).Runs does s b s₂) : ∃ a s₁, p.Runs does s a s₁ ∧ (f a).Runs does s₁ b s₂ := by
  induction p generalizing s with
  | ret a => exact ⟨a, s, .ret a s, h⟩
  | ask r k ih =>
    cases h with
    | @ask _ _ x _ s' _ _ hdoes hk =>
      obtain ⟨a, s₁, hp, hf⟩ := ih x hk
      exact ⟨a, s₁, .ask hdoes hp, hf⟩

/-- A run of a program that may fail: an error ends it. -/
lemma Runs.of_bindExcept {p : ExceptT ε (Program Resp) α} {f : α → ExceptT ε (Program Resp) β}
    {y : Except ε β} (h : Runs does (p >>= f : ExceptT ε (Program Resp) β) s y s₂) :
    (∃ e, Runs does p s (.error e) s₂ ∧ y = .error e) ∨
      ∃ a s₁, Runs does p s (.ok a) s₁ ∧ Runs does (f a) s₁ y s₂ := by
  obtain ⟨x, s₁, hp, hf⟩ := Runs.of_bind (f := ExceptT.bindCont f) h
  cases x with
  | ok a => exact Or.inr ⟨a, s₁, hp, hf⟩
  | error e =>
    cases hf
    exact Or.inl ⟨e, hp, rfl⟩

lemma Runs.of_lift {p : Program Resp α} {y : Except ε α}
    (h : Runs does (ExceptT.lift p : ExceptT ε (Program Resp) α) s y s₂) :
    ∃ a, y = .ok a ∧ p.Runs does s a s₂ := by
  obtain ⟨a, s₁, hp, hf⟩ := Runs.of_bind (f := fun a => Program.ret (.ok a : Except ε α)) h
  cases hf
  exact ⟨a, rfl, hp⟩

/-- What every answer keeps is kept by a run. -/
lemma Runs.related {R : σ → σ → Prop} (hrefl : ∀ s, R s s)
    (htrans : ∀ s₁ s₂ s₃, R s₁ s₂ → R s₂ s₃ → R s₁ s₃)
    (hdoes : ∀ r s x s', does r s x s' → R s s') {p : Program Resp α} {a : α}
    (h : p.Runs does s a s₂) : R s s₂ := by
  induction h with
  | ret a s => exact hrefl s
  | ask hstep _ ih => exact htrans _ _ _ (hdoes _ _ _ _ hstep) ih

/-- What the questions of a program keep is kept by its runs. -/
lemma Runs.of_asks {P : Req → Prop} {Q : α → Prop} {R : σ → σ → Prop} (hrefl : ∀ s, R s s)
    (htrans : ∀ s₁ s₂ s₃, R s₁ s₂ → R s₂ s₃ → R s₁ s₃)
    (hdoes : ∀ r s x s', P r → does r s x s' → R s s') {p : Program Resp α} {a : α}
    (hp : p.Asks P Q) (h : p.Runs does s a s₂) : R s s₂ ∧ Q a := by
  induction h with
  | ret a s => exact ⟨hrefl s, hp⟩
  | ask hstep _ ih =>
    obtain ⟨hrest, hresult⟩ := ih (hp.2 _)
    exact ⟨htrans _ _ _ (hdoes _ _ _ _ hp.1 hstep) hrest, hresult⟩

end Runs

end Program

/-- One thing that happened: a task had a question answered, or came to its end. -/
inductive Event (τ : Type) {Req : Type} (Resp : Req → Type) (ρ : Type)
  | did (t : τ) (r : Req) (x : Resp r)
  | finished (t : τ) (a : ρ)

/-- The shared state and what has happened so far, newest first. -/
structure Scene (τ σ : Type) {Req : Type} (Resp : Req → Type) (ρ : Type) where
  now : σ
  past : List (Event τ Resp ρ)

/-- What tasks find around them: how questions are answered, what the end of a task does, which
tasks arrive, and how the state moves by itself. -/
structure World (τ σ : Type) {Req : Type} (Resp : Req → Type) (ρ : Type) where
  does : τ → (r : Req) → σ → Resp r → σ → Prop
  finishes : τ → ρ → σ → σ → Prop
  arrives : σ → τ → Program Resp ρ → σ → Prop
  moves : σ → σ → Prop

/-- A scene and the tasks that are running. -/
structure Config (τ σ : Type) {Req : Type} (Resp : Req → Type) (ρ : Type) where
  scene : Scene τ σ Resp ρ
  tasks : List (τ × Program Resp ρ)

/-- One step of the system. -/
inductive Step (W : World τ σ Resp ρ) : Config τ σ Resp ρ → Config τ σ Resp ρ → Prop
  | act {s s' : σ} {past : List (Event τ Resp ρ)} (l l' : List (τ × Program Resp ρ)) {t : τ}
      {r : Req} {k : Resp r → Program Resp ρ} {x : Resp r} (h : W.does t r s x s') :
      Step W ⟨⟨s, past⟩, l ++ (t, .ask r k) :: l'⟩ ⟨⟨s', .did t r x :: past⟩, l ++ (t, k x) :: l'⟩
  | finish {s s' : σ} {past : List (Event τ Resp ρ)} (l l' : List (τ × Program Resp ρ)) {t : τ}
      {a : ρ} (h : W.finishes t a s s') :
      Step W ⟨⟨s, past⟩, l ++ (t, .ret a) :: l'⟩ ⟨⟨s', .finished t a :: past⟩, l ++ l'⟩
  | arrive {s s' : σ} {past : List (Event τ Resp ρ)} (l : List (τ × Program Resp ρ)) {t : τ}
      {p : Program Resp ρ} (h : W.arrives s t p s') :
      Step W ⟨⟨s, past⟩, l⟩ ⟨⟨s', past⟩, (t, p) :: l⟩
  | move {s s' : σ} {past : List (Event τ Resp ρ)} (l : List (τ × Program Resp ρ))
      (h : W.moves s s') : Step W ⟨⟨s, past⟩, l⟩ ⟨⟨s', past⟩, l⟩

/-- Any number of steps. -/
abbrev Steps (W : World τ σ Resp ρ) := Relation.ReflTransGen (Step W)

/-- A question of a task is answered, after other tasks than the `l` have come and gone. -/
def Answered (W : World τ σ Resp ρ) (l : List (τ × Program Resp ρ)) (t : τ) (r : Req) (s : σ)
    (x : Resp r) (s' : σ) : Prop :=
  ∃ s₁, W.does t r s₁ x s' ∧ ∀ (past : List (Event τ Resp ρ)) (p : Program Resp ρ),
    ∃ past', past <:+ past' ∧ Steps W ⟨⟨s, past⟩, (t, p) :: l⟩ ⟨⟨s₁, past'⟩, (t, p) :: l⟩

section Answered

variable {W : World τ σ Resp ρ} {l : List (τ × Program Resp ρ)} {t : τ} {s s' : σ}

lemma Answered.of_does {r : Req} {x : Resp r} (h : W.does t r s x s') : Answered W l t r s x s' :=
  ⟨s, h, fun past _ => ⟨past, List.suffix_rfl, .refl⟩⟩

/-- A run of a program is one of the system. -/
lemma Program.Runs.steps {p : Program Resp ρ} {a : ρ} (h : p.Runs (Answered W l t) s a s')
    (past : List (Event τ Resp ρ)) :
    ∃ past', past <:+ past' ∧ Steps W ⟨⟨s, past⟩, (t, p) :: l⟩ ⟨⟨s', past'⟩, (t, .ret a) :: l⟩ := by
  induction h generalizing past with
  | ret a s => exact ⟨past, List.suffix_rfl, .refl⟩
  | ask hstep _ ih =>
    obtain ⟨s₁, hdoes, hothers⟩ := hstep
    obtain ⟨past₁, hsuffix₁, hsteps₁⟩ := hothers past _
    obtain ⟨past₂, hsuffix₂, hsteps₂⟩ := ih (.did t _ _ :: past₁)
    exact ⟨past₂, (hsuffix₁.trans (List.suffix_cons _ _)).trans hsuffix₂,
      hsteps₁.trans (.head (Step.act [] l hdoes) hsteps₂)⟩

/-- A task arrives, runs and ends. -/
lemma Program.Runs.complete {p : Program Resp ρ} {a : ρ} {s₀ s₁ s₂ : σ}
    (harrive : W.arrives s₀ t p s₁) (h : p.Runs (Answered W l t) s₁ a s₂)
    (hfinish : W.finishes t a s₂ s') (past : List (Event τ Resp ρ)) :
    ∃ past', past <:+ past' ∧ Steps W ⟨⟨s₀, past⟩, l⟩ ⟨⟨s', .finished t a :: past'⟩, l⟩ := by
  obtain ⟨past', hsuffix, hsteps⟩ := h.steps past
  exact ⟨past', hsuffix, .head (Step.arrive l harrive) (hsteps.trans (.single (Step.finish [] l hfinish)))⟩

end Answered

section Logic

variable (W : World τ σ Resp ρ) (I : Scene τ σ Resp ρ → Prop)
  (R : Scene τ σ Resp ρ → Scene τ σ Resp ρ → Prop)

/-- The weakest precondition of a program of task `t` for the postcondition `Q`: whatever answers
come, each at a time of its own, the invariant and the relation are kept, and `Q` holds at the
end. -/
def Wp (t : τ) : Program Resp α → (α → Scene τ σ Resp ρ → Prop) → Scene τ σ Resp ρ → Prop
  | .ret a, Q, c => Q a c
  | .ask r k, Q, c => ∀ c₁, R c c₁ → I c₁ → ∀ x s', W.does t r c₁.now x s' →
      I ⟨s', .did t r x :: c₁.past⟩ ∧ R c₁ ⟨s', .did t r x :: c₁.past⟩ ∧
        Wp t (k x) Q ⟨s', .did t r x :: c₁.past⟩

/-- What has to hold where a task ends. -/
def Ends (t : τ) (a : ρ) (c : Scene τ σ Resp ρ) : Prop :=
  ∀ c₁, R c c₁ → I c₁ → ∀ s', W.finishes t a c₁.now s' →
    I ⟨s', .finished t a :: c₁.past⟩ ∧ R c₁ ⟨s', .finished t a :: c₁.past⟩

/-- The program of a task keeps the invariant and the relation to its end. -/
def Safe (t : τ) (p : Program Resp ρ) (c : Scene τ σ Resp ρ) : Prop := Wp W I R t p (Ends W I R t) c

/-- What has to be shown of a system. -/
structure System : Prop where
  refl : ∀ c, R c c
  trans : ∀ c₁ c₂ c₃, R c₁ c₂ → R c₂ c₃ → R c₁ c₃
  arrive : ∀ c t p s', I c → W.arrives c.now t p s' →
    I ⟨s', c.past⟩ ∧ R c ⟨s', c.past⟩ ∧ Safe W I R t p ⟨s', c.past⟩
  move : ∀ c s', I c → W.moves c.now s' → I ⟨s', c.past⟩ ∧ R c ⟨s', c.past⟩

variable {W I R} {t : τ}

lemma Wp.ask {r : Req} {k : Resp r → Program Resp α} {Q : α → Scene τ σ Resp ρ → Prop}
    {c : Scene τ σ Resp ρ}
    (h : ∀ c₁, R c c₁ → I c₁ → ∀ x s', W.does t r c₁.now x s' →
      I ⟨s', .did t r x :: c₁.past⟩ ∧ R c₁ ⟨s', .did t r x :: c₁.past⟩ ∧
        Wp W I R t (k x) Q ⟨s', .did t r x :: c₁.past⟩) :
    Wp W I R t (.ask r k) Q c := h

/-- Programs are put together like their preconditions. -/
lemma Wp.bind {p : Program Resp α} {f : α → Program Resp β} {Q : β → Scene τ σ Resp ρ → Prop}
    {c : Scene τ σ Resp ρ} (h : Wp W I R t p (fun a => Wp W I R t (f a) Q) c) :
    Wp W I R t (p >>= f) Q c := by
  induction p generalizing c with
  | ret a => exact h
  | ask r k ih =>
    intro c₁ hR hI x s' hdoes
    obtain ⟨hI', hR', hk⟩ := h c₁ hR hI x s' hdoes
    exact ⟨hI', hR', ih x hk⟩

lemma Wp.mono {p : Program Resp α} {Q Q' : α → Scene τ σ Resp ρ → Prop} {c : Scene τ σ Resp ρ}
    (hQ : ∀ a c, Q a c → Q' a c) (h : Wp W I R t p Q c) : Wp W I R t p Q' c := by
  induction p generalizing c with
  | ret a => exact hQ a c h
  | ask r k ih =>
    intro c₁ hR hI x s' hdoes
    obtain ⟨hI', hR', hk⟩ := h c₁ hR hI x s' hdoes
    exact ⟨hI', hR', ih x hk⟩

/-- What the relation keeps is kept by every program. -/
lemma Wp.frame {F : Scene τ σ Resp ρ → Prop} (hF : ∀ c c', R c c' → F c → F c')
    {p : Program Resp α} {Q : α → Scene τ σ Resp ρ → Prop} {c : Scene τ σ Resp ρ}
    (h : Wp W I R t p Q c) (hc : F c) : Wp W I R t p (fun a c => Q a c ∧ F c) c := by
  induction p generalizing c with
  | ret a => exact ⟨h, hc⟩
  | ask r k ih =>
    intro c₁ hR hI x s' hdoes
    obtain ⟨hI', hR', hk⟩ := h c₁ hR hI x s' hdoes
    exact ⟨hI', hR', ih x hk (hF _ _ hR' (hF _ _ hR hc))⟩

/-- A program that may fail: an error ends it. -/
lemma Wp.bindExcept {ε : Type} {p : ExceptT ε (Program Resp) α}
    {f : α → ExceptT ε (Program Resp) β} {Q : Except ε β → Scene τ σ Resp ρ → Prop}
    {Q₁ : Except ε α → Scene τ σ Resp ρ → Prop} {c : Scene τ σ Resp ρ} (h : Wp W I R t p Q₁ c)
    (hok : ∀ a c, Q₁ (.ok a) c → Wp W I R t (f a) Q c)
    (herror : ∀ e c, Q₁ (.error e) c → Q (.error e) c) :
    Wp W I R t (p >>= f : ExceptT ε (Program Resp) β) Q c := by
  refine Wp.bind (Wp.mono (fun x c hx => ?_) h)
  cases x with
  | ok a => exact hok a c hx
  | error e => exact herror e c hx

/-- A program that cannot fail, among programs that may. -/
lemma Wp.lift {ε : Type} {p : Program Resp α} {Q : α → Scene τ σ Resp ρ → Prop}
    {c : Scene τ σ Resp ρ} (h : Wp W I R t p Q c) :
    Wp W I R t (ExceptT.lift p : ExceptT ε (Program Resp) α)
      (fun x c => ∃ a, x = .ok a ∧ Q a c) c :=
  Wp.bind (f := fun a => Program.ret (.ok a : Except ε α)) (Wp.mono (fun a _ ha => ⟨a, rfl, ha⟩) h)

/-- Questions that keep the invariant and the relation whoever asks them need no further
reasoning. -/
lemma Wp.of_asks {P : Req → Prop}
    (hP : ∀ r, P r → ∀ c, I c → ∀ x s', W.does t r c.now x s' →
      I ⟨s', .did t r x :: c.past⟩ ∧ R c ⟨s', .did t r x :: c.past⟩)
    {Q : α → Prop} {p : Program Resp α} (h : p.Asks P Q) (c : Scene τ σ Resp ρ) :
    Wp W I R t p (fun a _ => Q a) c := by
  induction p generalizing c with
  | ret a => exact h
  | ask r k ih =>
    intro c₁ _ hI x s' hdoes
    obtain ⟨hI', hR'⟩ := hP r h.1 c₁ hI x s' hdoes
    exact ⟨hI', hR', ih x (h.2 x) _⟩

/-- A precondition that holds once holds later. -/
lemma Safe.later (hS : System W I R) {p : Program Resp ρ} {c c' : Scene τ σ Resp ρ} (hR : R c c')
    (h : Safe W I R t p c) : Safe W I R t p c' := by
  cases p with
  | ret a => exact fun c₁ hR₁ => h c₁ (hS.trans _ _ _ hR hR₁)
  | ask r k => exact fun c₁ hR₁ => h c₁ (hS.trans _ _ _ hR hR₁)

/-- The invariant holds and all tasks are safe. -/
def Good (W : World τ σ Resp ρ) (I : Scene τ σ Resp ρ → Prop)
    (R : Scene τ σ Resp ρ → Scene τ σ Resp ρ → Prop) (c : Config τ σ Resp ρ) : Prop :=
  I c.scene ∧ ∀ tp ∈ c.tasks, Safe W I R tp.1 tp.2 c.scene

lemma Good.step (hS : System W I R) {c c' : Config τ σ Resp ρ} (h : Good W I R c)
    (hstep : Step W c c') : Good W I R c' ∧ R c.scene c'.scene := by
  obtain ⟨hI, hsafe⟩ := h
  cases hstep with
  | act l l' hdoes =>
    rename_i s s' past t r k x
    obtain ⟨hI', hR', hk⟩ := hsafe (t, .ask r k) (by simp) _ (hS.refl _) hI x s' hdoes
    refine ⟨⟨hI', fun tp htp => ?_⟩, hR'⟩
    rcases List.mem_append.mp htp with hl | hl
    · exact (hsafe tp (List.mem_append_left _ hl)).later hS hR'
    · rcases List.mem_cons.mp hl with rfl | hl
      · exact hk
      · exact (hsafe tp (by simp [hl])).later hS hR'
  | finish l l' hfin =>
    rename_i s s' past t a
    obtain ⟨hI', hR'⟩ := hsafe (t, .ret a) (by simp) _ (hS.refl _) hI s' hfin
    refine ⟨⟨hI', fun tp htp => ?_⟩, hR'⟩
    have hmem : tp ∈ l ++ (t, .ret a) :: l' := by
      rcases List.mem_append.mp htp with hl | hl
      · exact List.mem_append_left _ hl
      · exact List.mem_append_right _ (List.mem_cons_of_mem _ hl)
    exact (hsafe tp hmem).later hS hR'
  | arrive l harr =>
    obtain ⟨hI', hR', hp⟩ := hS.arrive _ _ _ _ hI harr
    refine ⟨⟨hI', fun tp htp => ?_⟩, hR'⟩
    rcases List.mem_cons.mp htp with rfl | hl
    · exact hp
    · exact (hsafe tp hl).later hS hR'
  | move l hmove =>
    obtain ⟨hI', hR'⟩ := hS.move _ _ hI hmove
    exact ⟨⟨hI', fun tp htp => (hsafe tp htp).later hS hR'⟩, hR'⟩

/-- Whatever the order of steps, the invariant holds in every configuration reached, and the
scene has moved along the relation. -/
theorem System.run_rule (hS : System W I R) {c c' : Config τ σ Resp ρ} (h : Good W I R c)
    (hsteps : Steps W c c') : Good W I R c' ∧ R c.scene c'.scene := by
  induction hsteps with
  | refl => exact ⟨h, hS.refl _⟩
  | tail _ hstep ih =>
    obtain ⟨hgood, hR⟩ := ih
    obtain ⟨hgood', hR'⟩ := hgood.step hS hstep
    exact ⟨hgood', hS.trans _ _ _ hR hR'⟩

end Logic

end Process
