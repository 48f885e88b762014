import Mathlib.Tactic

/-!
# Programs with a state and an error exit

`Prog σ ε α` is a program over a state `σ` that returns an `α` or leaves with an
`ε`; the state it reached is kept in both cases.

* `Triple`: total-correctness triples with one postcondition for each exit. The
  rules (`Triple.bind`, `Triple.ite`, ...) compose them.
* `Steps`: every run of the program, whichever exit it takes, is a step of a
  preorder on states. This is how frame conditions compose.
* `atomically`, `attempt`, `onPart`: roll back on an error exit, turn an error
  exit into a value, run a program on one part of a larger state.
-/

/-- A program over `σ` that returns an `α` or leaves with an `ε`, keeping the state. -/
abbrev Prog (σ ε : Type) := ExceptT ε (StateM σ)

namespace Prog

variable {σ τ ε δ α β : Type}

/-- The outcome of a run: how the program was left, and the state then. -/
def exec (x : Prog σ ε α) (s : σ) : Except ε α × σ := x.run s

@[simp] theorem exec_pure (a : α) (s : σ) : exec (pure a : Prog σ ε α) s = (.ok a, s) := rfl

@[simp] theorem exec_throw (e : ε) (s : σ) : exec (throw e : Prog σ ε α) s = (.error e, s) := rfl

@[simp] theorem exec_get (s : σ) : exec (get : Prog σ ε σ) s = (.ok s, s) := rfl

@[simp] theorem exec_set (s' s : σ) : exec (set s' : Prog σ ε PUnit) s = (.ok ⟨⟩, s') := rfl

@[simp] theorem exec_modify (f : σ → σ) (s : σ) :
    exec (modify f : Prog σ ε PUnit) s = (.ok ⟨⟩, f s) := rfl

theorem exec_bind (x : Prog σ ε α) (f : α → Prog σ ε β) (s : σ) :
    exec (x >>= f) s =
      match exec x s with
      | (.ok a, s') => exec (f a) s'
      | (.error e, s') => (.error e, s') := by
  show (ExceptT.bind x f).run s = _
  simp only [ExceptT.bind, ExceptT.run, ExceptT.mk, exec, bind, StateT.bind]
  rcases x s with ⟨a | a, s'⟩ <;> rfl

theorem exec_bind_ok {x : Prog σ ε α} {f : α → Prog σ ε β} {s s' : σ} {a : α}
    (h : exec x s = (.ok a, s')) : exec (x >>= f) s = exec (f a) s' := by
  rw [exec_bind, h]

theorem exec_bind_error {x : Prog σ ε α} {f : α → Prog σ ε β} {s s' : σ} {e : ε}
    (h : exec x s = (.error e, s')) : exec (x >>= f) s = (.error e, s') := by
  rw [exec_bind, h]

/-- **A run of a sequence is left normally only through both parts.** -/
theorem bind_ok_inv {x : Prog σ ε α} {f : α → Prog σ ε β} {s s' : σ} {b : β}
    (h : exec (x >>= f) s = (.ok b, s')) :
    ∃ a s₁, exec x s = (.ok a, s₁) ∧ exec (f a) s₁ = (.ok b, s') := by
  rw [exec_bind] at h
  rcases hx : exec x s with ⟨e | a, s₁⟩
  · rw [hx] at h; simp at h
  · rw [hx] at h; exact ⟨a, s₁, rfl, h⟩

/-- A sequence of fallible computations succeeds only through both. -/
theorem except_bind_ok {x : Except ε α} {f : α → Except ε β} {b : β} (h : x >>= f = .ok b) :
    ∃ a, x = .ok a ∧ f a = .ok b := by
  cases x with
  | error e => simp [bind, Except.bind] at h
  | ok a => exact ⟨a, rfl, h⟩

/-! ## Guards, transactions and parts -/

/-- Leave with `e` unless `c` holds. -/
def guardOr (c : Bool) (e : ε) : Prog σ ε Unit := if c then pure () else throw e

theorem exec_guardOr (c : Bool) (e : ε) (s : σ) :
    exec (guardOr c e) s = (if c then .ok () else .error e, s) := by
  unfold guardOr; cases c <;> rfl

@[simp] theorem exec_guardOr_bind (c : Bool) (e : ε) (f : Unit → Prog σ ε β) (s : σ) :
    exec (guardOr c e >>= f) s = if c then exec (f ()) s else (.error e, s) := by
  rw [exec_bind, exec_guardOr]; cases c <;> rfl

/-- Run `x`; when it is left with an error, undo what it did. -/
def atomically (x : Prog σ ε α) : Prog σ ε α := fun s =>
  match exec x s with
  | (.ok a, s') => (.ok a, s')
  | (.error e, _) => (.error e, s)

theorem exec_atomically (x : Prog σ ε α) (s : σ) :
    exec (atomically x) s =
      match exec x s with
      | (.ok a, s') => (.ok a, s')
      | (.error e, _) => (.error e, s) := rfl

/-- **A transaction that fails changes nothing.** -/
theorem atomically_error {x : Prog σ ε α} {s s' : σ} {e : ε}
    (h : exec (atomically x) s = (.error e, s')) : s' = s := by
  rw [exec_atomically] at h
  rcases hx : exec x s with ⟨e' | a, s₁⟩
  · rw [hx] at h; simp only [Prod.mk.injEq] at h; exact h.2.symm
  · rw [hx] at h; simp at h

theorem atomically_ok {x : Prog σ ε α} {s s' : σ} {a : α}
    (h : exec (atomically x) s = (.ok a, s')) : exec x s = (.ok a, s') := by
  rw [exec_atomically] at h
  rcases hx : exec x s with ⟨e' | a', s₁⟩
  · rw [hx] at h; simp at h
  · rw [hx] at h; exact h

/-- Run `x` and hand its exit to the caller as a value. -/
def attempt (x : Prog σ ε α) : Prog σ δ (Except ε α) := fun s =>
  let r := exec x s
  (.ok r.1, r.2)

@[simp] theorem exec_attempt (x : Prog σ ε α) (s : σ) :
    exec (attempt x : Prog σ δ (Except ε α)) s = (.ok (exec x s).1, (exec x s).2) := rfl

/-- Run a program on one part of a larger state. -/
def onPart (view : σ → τ) (put : τ → σ → σ) (x : Prog τ ε α) : Prog σ ε α := fun s =>
  let r := exec x (view s)
  (r.1, put r.2 s)

@[simp] theorem exec_onPart (view : σ → τ) (put : τ → σ → σ) (x : Prog τ ε α) (s : σ) :
    exec (onPart view put x) s = ((exec x (view s)).1, put (exec x (view s)).2 s) := rfl

/-! ## Triples -/

/-- From a state satisfying `P`, a normal exit satisfies `Q` and an error exit `E`. -/
def Triple (P : σ → Prop) (x : Prog σ ε α) (Q : α → σ → Prop) (E : ε → σ → Prop) : Prop :=
  ∀ s, P s →
    match exec x s with
    | (.ok a, s') => Q a s'
    | (.error e, s') => E e s'

section Rules

variable {P P' : σ → Prop} {Q Q' : α → σ → Prop} {R : β → σ → Prop} {E E' : ε → σ → Prop}

theorem Triple.ok {x : Prog σ ε α} (h : Triple P x Q E) {s s' : σ} {a : α} (hs : P s)
    (hx : exec x s = (.ok a, s')) : Q a s' := by
  have := h s hs; rw [hx] at this; exact this

theorem Triple.error {x : Prog σ ε α} (h : Triple P x Q E) {s s' : σ} {e : ε} (hs : P s)
    (hx : exec x s = (.error e, s')) : E e s' := by
  have := h s hs; rw [hx] at this; exact this

/-- What holds after both exits holds of the state reached. -/
theorem Triple.state {x : Prog σ ε α} {R : σ → Prop}
    (h : Triple P x (fun _ => R) fun _ => R) {s : σ} (hs : P s) : R (exec x s).2 := by
  have h := h s hs
  rcases hr : exec x s with ⟨e | a, s'⟩ <;> rw [hr] at h <;> exact h

theorem triple_pure {a : α} (h : ∀ s, P s → Q a s) : Triple P (pure a) Q E :=
  fun s hs => h s hs

theorem triple_throw {e : ε} (h : ∀ s, P s → E e s) : Triple P (throw e) Q E :=
  fun s hs => h s hs

/-- **Sequencing.** -/
theorem triple_bind {x : Prog σ ε α} {f : α → Prog σ ε β} (hx : Triple P x Q E)
    (hf : ∀ a, Triple (Q a) (f a) R E) : Triple P (x >>= f) R E := by
  intro s hs
  have h := hx s hs
  rw [exec_bind]
  rcases hr : exec x s with ⟨e | a, s'⟩
  · rw [hr] at h; exact h
  · rw [hr] at h; exact hf a s' h

/-- **Consequence.** -/
theorem Triple.conseq {x : Prog σ ε α} (h : Triple P' x Q' E') (hP : ∀ s, P s → P' s)
    (hQ : ∀ a s, Q' a s → Q a s) (hE : ∀ e s, E' e s → E e s) : Triple P x Q E := by
  intro s hs
  have := h s (hP s hs)
  rcases hr : exec x s with ⟨e | a, s'⟩
  · rw [hr] at this; exact hE _ _ this
  · rw [hr] at this; exact hQ _ _ this

theorem triple_get {f : σ → Prog σ ε β} (h : ∀ s₀, Triple (fun s => s = s₀ ∧ P s) (f s₀) R E) :
    Triple P (get >>= f) R E :=
  triple_bind (Q := fun s₀ s => s = s₀ ∧ P s) (fun _ hs => ⟨rfl, hs⟩) h

theorem triple_read {f : σ → Prog σ ε β} (h : ∀ s₀, Triple P (f s₀) R E) :
    Triple P (get >>= f) R E :=
  triple_get fun s₀ _ hs => h s₀ _ hs.2

theorem triple_get_eq {f : σ → Prog σ ε β} {s₀ : σ} (h : Triple (· = s₀) (f s₀) R E) :
    Triple (· = s₀) (get >>= f) R E := by
  intro s hs
  subst hs
  exact h s rfl

theorem triple_exists {ι : Type} {I : ι → σ → Prop} {x : Prog σ ε α}
    (h : ∀ i, Triple (I i) x Q E) : Triple (fun s => ∃ i, I i s) x Q E :=
  fun s ⟨i, hi⟩ => h i s hi

/-- A triple is proved from each state separately. -/
theorem triple_each {x : Prog σ ε α} (h : ∀ s₀, P s₀ → Triple (· = s₀) x Q E) : Triple P x Q E :=
  fun s hs => h s hs s rfl

theorem triple_modify_eq {g : σ → σ} {f : PUnit → Prog σ ε β} {s₀ : σ}
    (h : Triple (· = g s₀) (f ⟨⟩) R E) : Triple (· = s₀) (modify g >>= f) R E := by
  intro s hs
  subst hs
  exact h (g s) rfl

theorem triple_set_eq {s' : σ} {f : PUnit → Prog σ ε β} (h : Triple (· = s') (f ⟨⟩) R E) :
    Triple P (set s' >>= f) R E :=
  fun _ _ => h s' rfl

theorem triple_set_last {s' : σ} {Q : PUnit → σ → Prop} (h : Q ⟨⟩ s') : Triple P (set s') Q E :=
  fun _ _ => h

theorem triple_modify_last {g : σ → σ} {Q : PUnit → σ → Prop} {s₀ : σ} (h : Q ⟨⟩ (g s₀)) :
    Triple (· = s₀) (modify g) Q E := by
  intro s hs
  subst hs
  exact h

theorem triple_ite {c : Prop} [Decidable c] {x y : Prog σ ε α} (hx : c → Triple P x Q E)
    (hy : ¬c → Triple P y Q E) : Triple P (if c then x else y) Q E := by
  split
  · exact hx ‹_›
  · exact hy ‹_›

theorem triple_modify {g : σ → σ} {f : PUnit → Prog σ ε β}
    (h : Triple P' (f ⟨⟩) R E) (hg : ∀ s, P s → P' (g s)) : Triple P (modify g >>= f) R E :=
  triple_bind (Q := fun _ => P') (fun s hs => hg s hs) fun _ => h

/-- **A guard** either lets the rest run or leaves at once. -/
theorem triple_guardOr {c : Bool} {e : ε} {f : Unit → Prog σ ε β}
    (hf : c = true → Triple P (f ()) R E) (he : c = false → ∀ s, P s → E e s) :
    Triple P (guardOr c e >>= f) R E := by
  intro s hs
  rw [exec_guardOr_bind]
  cases c with
  | true => exact hf rfl s hs
  | false => exact he rfl s hs

/-- **An attempt** never leaves with an error; its value says how `x` was left. -/
theorem triple_attempt {x : Prog σ ε α} {F : δ → σ → Prop} (h : Triple P x Q E) :
    Triple P (attempt x : Prog σ δ (Except ε α))
      (fun r s => match r with
        | .ok a => Q a s
        | .error e => E e s) F := by
  intro s hs
  have h := h s hs
  rw [exec_attempt]
  rcases hr : exec x s with ⟨e | a, s'⟩ <;> rw [hr] at h <;> exact h

/-- **A transaction** from a known state either takes effect or changes nothing. -/
theorem triple_atomically {x : Prog σ ε α} {s₀ : σ} {F : ε → Prop}
    (h : Triple (· = s₀) x Q fun e _ => F e) :
    Triple (· = s₀) (atomically x) Q fun e s => F e ∧ s = s₀ := by
  intro s hs
  have h := h s hs
  rw [exec_atomically]
  rcases hr : exec x s with ⟨e | a, s'⟩
  · rw [hr] at h; exact ⟨h, hs⟩
  · rw [hr] at h; exact h

/-- A precondition that does not depend on the state is a hypothesis. -/
theorem triple_pure_pre {φ : Prop} {x : Prog σ ε α} (h : φ → Triple P x Q E) :
    Triple (fun s => φ ∧ P s) x Q E :=
  fun s hs => h hs.1 s hs.2

end Rules

/-! ## Steps -/

/-- Every run of the program is a step of `R`, whichever exit it takes. -/
def Steps (R : σ → σ → Prop) (x : Prog σ ε α) : Prop := ∀ s, R s (exec x s).2

section Steps

variable {R : σ → σ → Prop}

theorem steps_pure (hrefl : ∀ s, R s s) (a : α) : Steps R (pure a : Prog σ ε α) := fun s => hrefl s

theorem steps_throw (hrefl : ∀ s, R s s) (e : ε) : Steps R (throw e : Prog σ ε α) := fun s => hrefl s

theorem steps_guardOr (hrefl : ∀ s, R s s) (c : Bool) (e : ε) : Steps R (guardOr c e : Prog σ ε Unit) := by
  intro s
  rw [exec_guardOr]
  exact hrefl s

/-- A sequence takes a step of each part, or stops after the first. -/
theorem steps_bind (htrans : ∀ s t u, R s t → R t u → R s u) {x : Prog σ ε α} {f : α → Prog σ ε β}
    (hx : Steps R x) (hf : ∀ a, Steps R (f a)) : Steps R (x >>= f) := by
  intro s
  rw [exec_bind]
  have hstep := hx s
  rcases hr : exec x s with ⟨e | a, s'⟩
  · rw [hr] at hstep
    exact hstep
  · rw [hr] at hstep
    exact htrans _ _ _ hstep (hf a s')

theorem steps_get {f : σ → Prog σ ε β} (hf : ∀ s, Steps R (f s)) : Steps R (get >>= f) :=
  fun s => hf s s

/-- Steps as a triple. -/
theorem Steps.triple {x : Prog σ ε α} (h : Steps R x) (s : σ) :
    Triple (· = s) x (fun _ => R s) fun _ => R s := by
  intro t ht
  subst ht
  have hstep := h t
  rcases hr : exec x t with ⟨e | a, t'⟩ <;> rw [hr] at hstep <;> exact hstep

end Steps

end Prog
