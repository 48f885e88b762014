import Astock.Lib.Run

/-!
# Threads over a shared state, and what they take from it

A pool is a shared state with the threads in flight. A move changes the shared state
from outside, starts a thread, or lets one thread take a step, which may end it. A run
is any list of moves, so it is any interleaving.

* `Leased`: whatever is taken from the shared state, a thread in flight holds it.
* `Lends.run_leased`: **what no thread lets go of without giving it back stays leased.**
* `Leased.quiet`: so when no thread is in flight, nothing is taken.
* `watched`: the system with a record that each step adds to, shared and of the thread itself;
  `run_watched`: it runs as the system does.
-/

structure Pool (σ τ : Type) where
  shared : σ
  threads : List τ

namespace Pool

variable {σ τ ε κ ι ρ : Type}

inductive Move (ε κ ι : Type)
  /-- The shared state changes from outside. -/
  | env (e : ε)
  | start (k : κ)
  /-- The thread at a position takes a step, with an input of its own. -/
  | step (i : ℕ) (x : ι)

/-- A system of threads: what the outside does, the threads there are, and their steps.
A step that gives no thread back has ended it. -/
structure System (σ τ ε κ ι : Type) where
  env : ε → σ → σ
  spawn : κ → τ
  act : ι → σ → τ → σ × Option τ

def next (sys : System σ τ ε κ ι) (p : Pool σ τ) : Move ε κ ι → Pool σ τ
  | .env e => { p with shared := sys.env e p.shared }
  | .start k => { p with threads := p.threads ++ [sys.spawn k] }
  | .step i x =>
    match p.threads[i]? with
    | none => p
    | some t =>
      let r := sys.act x p.shared t
      match r.2 with
      | some t' => { shared := r.1, threads := p.threads.set i t' }
      | none => { shared := r.1, threads := p.threads.eraseIdx i }

/-- A condition on the steps of threads, as one on moves. -/
def Guarded (guard : ι → σ → τ → Prop) (p : Pool σ τ) : Move ε κ ι → Prop
  | .step i x => ∀ t, p.threads[i]? = some t → guard x p.shared t
  | _ => True

instance (guard : ι → σ → τ → Prop) [∀ x s t, Decidable (guard x s t)] (p : Pool σ τ) :
    ∀ m : Move ε κ ι, Decidable (Guarded guard p m)
  | .env _ | .start _ => isTrue trivial
  | .step i x => inferInstanceAs (Decidable (∀ t ∈ p.threads[i]?, guard x p.shared t))

/-! ## The step of one thread -/

section Step

variable {sys : System σ τ ε κ ι} {p : Pool σ τ} {i : ℕ} {x : ι} {t : τ}

theorem next_none (h : p.threads[i]? = none) : next sys p (.step i x) = p := by simp only [next, h]

theorem next_shared (h : p.threads[i]? = some t) :
    (next sys p (.step i x)).shared = (sys.act x p.shared t).1 := by
  simp only [next, h]
  cases (sys.act x p.shared t).2 <;> rfl

/-- **Who is in flight** after the step of a thread: what the step gave back, or another thread. -/
theorem mem_next (h : p.threads[i]? = some t) {u : τ}
    (hu : u ∈ (next sys p (.step i x)).threads) :
    (sys.act x p.shared t).2 = some u ∨ u ∈ p.threads.eraseIdx i := by
  cases hr : (sys.act x p.shared t).2 with
  | none =>
    simp only [next, h, hr] at hu
    exact .inr hu
  | some t' =>
    simp only [next, h, hr] at hu
    obtain ⟨j, hj, hget⟩ := List.getElem_of_mem hu
    by_cases hij : i = j
    · subst hij
      rw [List.getElem_set_self] at hget
      exact .inl (congrArg some hget)
    · rw [List.getElem_set_ne hij] at hget
      have hlen : j < p.threads.length := by simpa using hj
      refine .inr (List.mem_eraseIdx_iff_getElem?.2 ⟨j, Ne.symm hij, ?_⟩)
      rw [List.getElem?_eq_getElem hlen, hget]

/-- The others in flight, and the thread that moves if `P` holds of it. -/
theorem countP_split (P : τ → Bool) (h : p.threads[i]? = some t) :
    p.threads.countP P = (p.threads.eraseIdx i).countP P + if P t then 1 else 0 := by
  obtain ⟨hi, rfl⟩ := List.getElem?_eq_some_iff.1 h
  have hsplit : p.threads = p.threads.take i ++ p.threads[i] :: p.threads.drop (i + 1) := by
    rw [List.cons_getElem_drop_succ, List.take_append_drop]
  rw [List.eraseIdx_eq_take_drop_succ, List.countP_append]
  conv_lhs => rw [hsplit, List.countP_append, List.countP_cons]
  omega

/-- **How many** in flight meet `P` after the step: the others, and what the step gave back. -/
theorem countP_next (P : τ → Bool) (h : p.threads[i]? = some t) :
    (next sys p (.step i x)).threads.countP P =
      (p.threads.eraseIdx i).countP P + if (sys.act x p.shared t).2.any P then 1 else 0 := by
  obtain ⟨hi, -⟩ := List.getElem?_eq_some_iff.1 h
  cases hr : (sys.act x p.shared t).2 with
  | none =>
    simp only [next, h, hr]
    simp
  | some t' =>
    have hset : (p.threads.set i t')[i]? = some t' := by simp [hi]
    have hafter := @countP_split _ _ { p with threads := p.threads.set i t' } i t' P hset
    simp only [next, h, hr]
    rw [hafter, List.eraseIdx_set_eq]
    rfl

end Step

/-! ## Leases -/

/-- Whatever is taken from the shared state, some thread in flight holds it. -/
def Leased (taken : σ → ρ → Prop) (holds : τ → ρ → Prop) (p : Pool σ τ) : Prop :=
  ∀ r, taken p.shared r → ∃ t ∈ p.threads, holds t r

theorem Leased.quiet {taken : σ → ρ → Prop} {holds : τ → ρ → Prop} {p : Pool σ τ}
    (h : Leased taken holds p) (hquiet : p.threads = []) (r : ρ) : ¬ taken p.shared r := by
  intro htaken
  obtain ⟨t, ht, -⟩ := h r htaken
  simp [hquiet] at ht

/-- A system that lends: nothing is taken from outside, and what is taken after a step
of a thread that meets the guard is held by this thread, or was held by another. -/
structure Lends (sys : System σ τ ε κ ι) (taken : σ → ρ → Prop) (holds : τ → ρ → Prop)
    (good : τ → Prop) (guard : ι → σ → τ → Prop) : Prop where
  env : ∀ e s r, taken (sys.env e s) r → taken s r
  spawn : ∀ k, good (sys.spawn k)
  stays : ∀ x s t, good t → ∀ t', (sys.act x s t).2 = some t' → good t'
  step : ∀ x s t, good t → guard x s t → ∀ r, taken (sys.act x s t).1 r →
    (∃ t', (sys.act x s t).2 = some t' ∧ holds t' r) ∨ taken s r ∧ ¬ holds t r

variable {sys : System σ τ ε κ ι} {taken : σ → ρ → Prop} {holds : τ → ρ → Prop} {good : τ → Prop}
  {guard : ι → σ → τ → Prop} {p : Pool σ τ}

/-- Every thread in flight is good, and what is taken is leased. -/
def Sound (taken : σ → ρ → Prop) (holds : τ → ρ → Prop) (good : τ → Prop) (p : Pool σ τ) : Prop :=
  (∀ t ∈ p.threads, good t) ∧ Leased taken holds p

/-- **A step keeps the leases.** -/
theorem Lends.next_sound (h : Lends sys taken holds good guard) (m : Move ε κ ι)
    (hguard : Guarded guard p m) (hp : Sound taken holds good p) :
    Sound taken holds good (next sys p m) := by
  obtain ⟨hgood, hleased⟩ := hp
  cases m with
  | env e => exact ⟨hgood, fun r hr => hleased r (h.env e _ r hr)⟩
  | start k =>
    refine ⟨fun t ht => ?_, fun r hr => ?_⟩
    · rcases List.mem_append.1 ht with ht | ht
      · exact hgood t ht
      · obtain rfl := List.mem_singleton.1 ht; exact h.spawn k
    · obtain ⟨t, ht, hholds⟩ := hleased r hr
      exact ⟨t, List.mem_append_left _ ht, hholds⟩
  | step i x =>
    cases ht : p.threads[i]? with
    | none =>
      have hsame : next sys p (.step i x) = p := by simp only [next, ht]
      rw [hsame]
      exact ⟨hgood, hleased⟩
    | some t =>
      obtain ⟨hi, rfl⟩ := List.getElem?_eq_some_iff.1 ht
      have hgood_t := hgood _ (List.getElem_mem hi)
      have hstays := h.stays x p.shared _ hgood_t
      have hstep := h.step x p.shared _ hgood_t (hguard _ ht)
      -- who held something and is not the thread that moves still holds it
      have hother : ∀ r, taken p.shared r → ¬ holds p.threads[i] r →
          ∃ j t, j ≠ i ∧ p.threads[j]? = some t ∧ holds t r := by
        intro r hr hnot
        obtain ⟨t, hmem, hholds⟩ := hleased r hr
        obtain ⟨j, hj, rfl⟩ := List.getElem_of_mem hmem
        refine ⟨j, _, ?_, List.getElem?_eq_getElem hj, hholds⟩
        rintro rfl
        exact hnot hholds
      cases hr : (sys.act x p.shared p.threads[i]).2 with
      | some t' =>
        have hnext : next sys p (.step i x) =
            { shared := (sys.act x p.shared p.threads[i]).1, threads := p.threads.set i t' } := by
          simp only [next, ht, hr]
        rw [hnext]
        refine ⟨fun t hmem => ?_, fun r htaken => ?_⟩
        · rcases List.mem_or_eq_of_mem_set hmem with hmem | rfl
          · exact hgood t hmem
          · exact hstays _ hr
        · rcases hstep r htaken with ⟨t'', ht'', hholds⟩ | ⟨hbefore, hnot⟩
          · obtain rfl := Option.some.inj (hr.symm.trans ht'')
            exact ⟨t', List.mem_set hi t', hholds⟩
          · obtain ⟨j, t, hne, hj, hholds⟩ := hother r hbefore hnot
            refine ⟨t, List.mem_of_getElem? (i := j) ?_, hholds⟩
            rw [List.getElem?_set_ne hne.symm]
            exact hj
      | none =>
        have hnext : next sys p (.step i x) =
            { shared := (sys.act x p.shared p.threads[i]).1, threads := p.threads.eraseIdx i } := by
          simp only [next, ht, hr]
        rw [hnext]
        refine ⟨fun t hmem => hgood t (List.mem_of_mem_eraseIdx hmem), fun r htaken => ?_⟩
        rcases hstep r htaken with ⟨t'', ht'', -⟩ | ⟨hbefore, hnot⟩
        · rw [hr] at ht''; simp at ht''
        · obtain ⟨j, t, hne, hj, hholds⟩ := hother r hbefore hnot
          exact ⟨t, List.mem_eraseIdx_iff_getElem?.2 ⟨j, hne, hj⟩, hholds⟩

/-- **Whatever is taken stays leased**, along every run whose steps meet the guard. -/
theorem Lends.run_leased (h : Lends sys taken holds good guard) (ms : List (Move ε κ ι))
    (hguard : Run.Along (next sys) (Guarded guard) p ms) (hp : Sound taken holds good p) :
    Leased taken holds (Run.run (next sys) p ms) :=
  (Run.run_invariant_along (fun _ m hok hs => h.next_sound m hok hs) ms p hguard hp).2

/-! ## Watched systems -/

variable {γ δ : Type}

/-- The system with a record of its steps. -/
def watched (sys : System σ τ ε κ ι) (watch : ι → σ → τ → γ → δ → γ × δ) (blank : δ) :
    System (σ × γ) (τ × δ) ε κ ι where
  env := fun e s => (sys.env e s.1, s.2)
  spawn := fun k => (sys.spawn k, blank)
  act := fun x s t =>
    let r := sys.act x s.1 t.1
    let w := watch x s.1 t.1 s.2 t.2
    ((r.1, w.1), r.2.map fun t' => (t', w.2))

/-- The pool without the record. -/
def plain (p : Pool (σ × γ) (τ × δ)) : Pool σ τ where
  shared := p.shared.1
  threads := p.threads.map Prod.fst

theorem plain_next {watch : ι → σ → τ → γ → δ → γ × δ} {blank : δ} (p : Pool (σ × γ) (τ × δ))
    (m : Move ε κ ι) : (next (watched sys watch blank) p m).plain = next sys p.plain m := by
  cases m with
  | env e => rfl
  | start k => simp [next, plain, watched]
  | step i x =>
    cases ht : p.threads[i]? with
    | none =>
      have hthread : (p.threads.map Prod.fst)[i]? = none := by rw [List.getElem?_map, ht]; rfl
      simp only [next, plain, ht, hthread]
    | some t =>
      have hthread : (p.threads.map Prod.fst)[i]? = some t.1 := by
        rw [List.getElem?_map, ht]; rfl
      cases hr : (sys.act x p.shared.1 t.1).2 with
      | none => simp only [next, plain, ht, hthread, watched, hr, Option.map_none, List.eraseIdx_map]
      | some t' => simp only [next, plain, ht, hthread, watched, hr, Option.map_some, List.map_set]

/-- **Watching changes nothing.** -/
theorem run_watched {watch : ι → σ → τ → γ → δ → γ × δ} {blank : δ} (ms : List (Move ε κ ι))
    (p : Pool (σ × γ) (τ × δ)) :
    (Run.run (next (watched sys watch blank)) p ms).plain = Run.run (next sys) p.plain ms := by
  induction ms generalizing p with
  | nil => rfl
  | cons m ms ih => rw [Run.run_cons, Run.run_cons, ih, plain_next]

end Pool
