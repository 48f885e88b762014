import Mathlib.Tactic

/-!
# First-in first-out matching

Counted entries wait in a queue and are taken from its front, a part of one at a time.

* `units_taken`, `units_left`: taking `n` takes the first `n` units and leaves the others.
* `run_units`: **the units taken are the units put, in their order**, if no more is taken than was put.
* `run_related`: entries are matched with what takes from them later.
-/

namespace Fifo

variable {α β : Type}

/-- The units of counted entries, one by one. -/
def units (q : List (α × ℕ)) : List α := q.flatMap fun e => List.replicate e.2 e.1

@[simp] theorem units_nil : units ([] : List (α × ℕ)) = [] := rfl

@[simp] theorem units_cons (e : α × ℕ) (q : List (α × ℕ)) :
    units (e :: q) = List.replicate e.2 e.1 ++ units q := rfl

@[simp] theorem units_append (q q' : List (α × ℕ)) : units (q ++ q') = units q ++ units q' :=
  List.flatMap_append

theorem length_units (q : List (α × ℕ)) : (units q).length = (q.map Prod.snd).sum := by
  induction q with
  | nil => rfl
  | cons e q ih => rw [units_cons, List.length_append, List.length_replicate, ih, List.map_cons,
      List.sum_cons]

/-- What is paid for each unit adds up. -/
theorem sum_units {M : Type} [AddCommMonoid M] (g : α → M) (q : List (α × ℕ)) :
    ((units q).map g).sum = (q.map fun e => e.2 • g e.1).sum := by
  induction q with
  | nil => rfl
  | cons e q ih =>
    rw [units_cons, List.map_append, List.sum_append, ih, List.map_replicate, List.sum_replicate,
      List.map_cons, List.sum_cons]

/-! ## Taking from the front -/

/-- Take `n` units from the front: what is taken of each entry, and what is left. -/
def pull : ℕ → List (α × ℕ) → List (α × ℕ) × List (α × ℕ)
  | _, [] => ([], [])
  | n, e :: q =>
    if n = 0 then ([], e :: q)
    else if e.2 ≤ n then (e :: (pull (n - e.2) q).1, (pull (n - e.2) q).2)
    else ([(e.1, n)], (e.1, e.2 - n) :: q)

theorem units_pull (q : List (α × ℕ)) : ∀ n : ℕ,
    units (pull n q).1 = (units q).take n ∧ units (pull n q).2 = (units q).drop n := by
  induction q with
  | nil => intro n; simp [pull]
  | cons e q ih =>
    intro n
    rw [pull]
    by_cases hn : n = 0
    · rw [if_pos hn, hn]
      exact ⟨rfl, rfl⟩
    rw [if_neg hn]
    by_cases hle : e.2 ≤ n
    · -- the entry is used up
      obtain ⟨htaken, hleft⟩ := ih (n - e.2)
      have hall : (List.replicate e.2 e.1).length ≤ n := by rwa [List.length_replicate]
      rw [if_pos hle]
      constructor
      · rw [units_cons, htaken, units_cons, List.take_append, List.take_of_length_le hall,
          List.length_replicate]
      · rw [hleft, units_cons, List.drop_append, List.drop_of_length_le hall, List.nil_append,
          List.length_replicate]
    · rw [if_neg hle]
      have hlt : n < e.2 := by omega
      constructor
      · rw [units_cons, units_nil, List.append_nil, units_cons,
          List.take_append_of_le_length (by rw [List.length_replicate]; omega), List.take_replicate,
          min_eq_left hlt.le]
      · rw [units_cons, units_cons, List.drop_append_of_le_length (by rw [List.length_replicate]; omega),
          List.drop_replicate]

/-- **Taking takes the first units.** -/
theorem units_taken (n : ℕ) (q : List (α × ℕ)) : units (pull n q).1 = (units q).take n :=
  (units_pull q n).1

/-- **Taking leaves the other units.** -/
theorem units_left (n : ℕ) (q : List (α × ℕ)) : units (pull n q).2 = (units q).drop n :=
  (units_pull q n).2

/-- Taking keeps what holds of the entries, whatever their count. -/
theorem pull_forall {P : α → Prop} {q : List (α × ℕ)} : ∀ {n : ℕ}, (∀ e ∈ q, P e.1) →
    (∀ e ∈ (pull n q).1, P e.1) ∧ ∀ e ∈ (pull n q).2, P e.1 := by
  induction q with
  | nil => intro n h; exact ⟨h, h⟩
  | cons e q ih =>
    intro n h
    obtain ⟨he, hq⟩ := List.forall_mem_cons.1 h
    rw [pull]
    split
    · exact ⟨fun _ h => absurd h List.not_mem_nil, h⟩
    split
    · obtain ⟨htaken, hleft⟩ := ih (n := n - e.2) hq
      exact ⟨List.forall_mem_cons.2 ⟨he, htaken⟩, hleft⟩
    · exact ⟨List.forall_mem_cons.2 ⟨he, fun _ h => absurd h List.not_mem_nil⟩,
        List.forall_mem_cons.2 ⟨he, hq⟩⟩

/-- Taking does not make counts larger. -/
theorem pull_bounded {bound : ℕ} {q : List (α × ℕ)} : ∀ {n : ℕ}, (∀ e ∈ q, e.2 < bound) →
    (∀ e ∈ (pull n q).1, e.2 < bound) ∧ ∀ e ∈ (pull n q).2, e.2 < bound := by
  induction q with
  | nil => intro n h; exact ⟨h, h⟩
  | cons e q ih =>
    intro n h
    obtain ⟨he, hq⟩ := List.forall_mem_cons.1 h
    rw [pull]
    split
    · exact ⟨fun _ h => absurd h List.not_mem_nil, h⟩
    split
    · obtain ⟨htaken, hleft⟩ := ih (n := n - e.2) hq
      exact ⟨List.forall_mem_cons.2 ⟨he, htaken⟩, hleft⟩
    · refine ⟨List.forall_mem_cons.2 ⟨?_, fun _ h => absurd h List.not_mem_nil⟩,
        List.forall_mem_cons.2 ⟨?_, hq⟩⟩
      · change n < bound
        omega
      · change e.2 - n < bound
        omega

/-! ## Matching -/

/-- Something is put into the queue, or takes from it. -/
inductive Move (α β : Type)
  | put (a : α) (n : ℕ)
  | take (b : β) (n : ℕ)

/-- What is matched so far, and the queue. -/
def step (s : List ((α × β) × ℕ) × List (α × ℕ)) : Move α β → List ((α × β) × ℕ) × List (α × ℕ)
  | .put a n => (s.1, s.2 ++ [(a, n)])
  | .take b n => (s.1 ++ (pull n s.2).1.map fun e => ((e.1, b), e.2), (pull n s.2).2)

def run (moves : List (Move α β)) : List ((α × β) × ℕ) × List (α × ℕ) := moves.foldl step ([], [])

def puts (moves : List (Move α β)) : List (α × ℕ) :=
  moves.filterMap fun
    | .put a n => some (a, n)
    | .take _ _ => none

def takes (moves : List (Move α β)) : List (β × ℕ) :=
  moves.filterMap fun
    | .put _ _ => none
    | .take b n => some (b, n)

/-- No more is taken than was put before. -/
def Covered (moves : List (Move α β)) : Prop :=
  ∀ past, past <+: moves → (units (takes past)).length ≤ (units (puts past)).length

theorem puts_append (moves more : List (Move α β)) : puts (moves ++ more) = puts moves ++ puts more :=
  List.filterMap_append

theorem takes_append (moves more : List (Move α β)) :
    takes (moves ++ more) = takes moves ++ takes more :=
  List.filterMap_append

theorem run_concat (moves : List (Move α β)) (m : Move α β) :
    run (moves ++ [m]) = step (run moves) m := by
  rw [run, List.foldl_append]
  rfl

theorem units_pair (b : β) (q : List (α × ℕ)) :
    units (q.map fun e => ((e.1, b), e.2)) = (units q).map fun a => (a, b) := by
  induction q with
  | nil => rfl
  | cons e q ih => rw [List.map_cons, units_cons, units_cons, List.map_append, ih, List.map_replicate]

theorem zip_replicate (l : List α) (b : β) : ∀ n : ℕ,
    l.zip (List.replicate n b) = (l.take n).map fun a => (a, b) := by
  induction l with
  | nil => intro n; simp
  | cons a l ih =>
    intro n
    cases n with
    | zero => rfl
    | succ n => rw [List.replicate_succ, List.zip_cons_cons, ih, List.take_succ_cons, List.map_cons]

theorem zip_append_left {l l' : List α} {r : List β} (h : r.length ≤ l.length) :
    (l ++ l').zip r = l.zip r := by
  have hlen : min (l ++ l').length r.length = r.length :=
    min_eq_right (h.trans (by rw [List.length_append]; omega))
  have hshort : l.zip r = (l.take r.length).zip (r.take r.length) := by
    rw [List.zip_eq_zip_take_min, min_eq_right h]
  rw [List.zip_eq_zip_take_min, hlen, List.take_append_of_le_length h, hshort]

/-- **First in, first out**: the units taken are the units put, in their order, and the others wait. -/
theorem run_units {moves : List (Move α β)} (h : Covered moves) :
    units (run moves).1 = (units (puts moves)).zip (units (takes moves)) ∧
      units (run moves).2 = (units (puts moves)).drop (units (takes moves)).length := by
  induction moves using List.reverseRecOn with
  | nil => exact ⟨rfl, rfl⟩
  | append_singleton moves m ih =>
    obtain ⟨hmatched, hwaiting⟩ := ih fun past hpast => h past (hpast.trans (List.prefix_append _ _))
    have hcovered := h moves (List.prefix_append _ _)
    rw [run_concat, puts_append, takes_append]
    cases m with
    | put a n =>
      have hputs : puts [(.put a n : Move α β)] = [(a, n)] := rfl
      have htakes : takes [(.put a n : Move α β)] = [] := rfl
      rw [hputs, htakes, List.append_nil, units_append]
      constructor
      · rw [zip_append_left hcovered]
        exact hmatched
      · rw [List.drop_append_of_le_length hcovered, ← hwaiting]
        exact units_append _ _
    | take b n =>
      have hputs : puts [(.take b n : Move α β)] = [] := rfl
      have htakes : takes [(.take b n : Move α β)] = [(b, n)] := rfl
      rw [hputs, htakes, List.append_nil, units_append, units_cons, units_nil, List.append_nil]
      constructor
      · change units ((run moves).1 ++ _) = _
        rw [units_append, units_pair, units_taken, hmatched, hwaiting]
        conv_rhs => rw [← List.take_append_drop (units (takes moves)).length (units (puts moves))]
        rw [List.zip_append (by rw [List.length_take, min_eq_left hcovered]), zip_replicate]
        congr 1
        conv_lhs => rw [List.zip_eq_zip_take_min, min_eq_right hcovered, List.take_length]
      · change units (pull n (run moves).2).2 = _
        rw [units_left, hwaiting, List.drop_drop, List.length_append, List.length_replicate]

/-- The units that a move puts or takes. -/
def Move.count : Move α β → ℕ
  | .put _ n => n
  | .take _ n => n

/-- Matching does not make counts larger. -/
theorem run_bounded {bound : ℕ} {moves : List (Move α β)} (h : ∀ m ∈ moves, m.count < bound) :
    (∀ e ∈ (run moves).1, e.2 < bound) ∧ ∀ e ∈ (run moves).2, e.2 < bound := by
  induction moves using List.reverseRecOn with
  | nil => exact ⟨fun _ h => absurd h List.not_mem_nil, fun _ h => absurd h List.not_mem_nil⟩
  | append_singleton moves m ih =>
    obtain ⟨hmoves, hm⟩ := List.forall_mem_append.1 h
    obtain ⟨hmatched, hqueue⟩ := ih hmoves
    rw [run_concat]
    cases m with
    | put a n =>
      refine ⟨hmatched, fun e he => ?_⟩
      rcases List.mem_append.1 he with he | he
      · exact hqueue e he
      · obtain rfl := List.mem_singleton.1 he
        exact hm _ (List.mem_singleton_self _)
    | take b n =>
      obtain ⟨htaken, hleft⟩ := pull_bounded (n := n) hqueue
      refine ⟨fun e he => ?_, hleft⟩
      rcases List.mem_append.1 he with he | he
      · exact hmatched e he
      · obtain ⟨e', he', rfl⟩ := List.mem_map.1 he
        exact htaken e' he'

/-- An entry and what may take from it. -/
def Move.Relates (R : α → β → Prop) : Move α β → Move α β → Prop
  | .put a _, .take b _ => R a b
  | _, _ => True

/-- **What is matched was put before it was taken.** -/
theorem run_related {R : α → β → Prop} {moves : List (Move α β)}
    (h : moves.Pairwise (Move.Relates R)) : ∀ m ∈ (run moves).1, R m.1.1 m.1.2 := by
  have hgen : ∀ (moves : List (Move α β)) (s : List ((α × β) × ℕ) × List (α × ℕ)),
      moves.Pairwise (Move.Relates R) → (∀ m ∈ s.1, R m.1.1 m.1.2) →
      (∀ e ∈ s.2, ∀ b n, .take b n ∈ moves → R e.1 b) →
      ∀ m ∈ (moves.foldl step s).1, R m.1.1 m.1.2 := by
    intro moves
    induction moves with
    | nil => intro s _ hmatched _; exact hmatched
    | cons m moves ih =>
      intro s hpair hmatched hqueue
      obtain ⟨hhead, hpair⟩ := List.pairwise_cons.1 hpair
      refine ih _ hpair ?_ ?_
      · cases m with
        | put a n => exact hmatched
        | take b n =>
          have htaken := (pull_forall (n := n) (P := fun a => R a b) fun e he =>
            hqueue e he b n List.mem_cons_self).1
          intro p hp
          rcases List.mem_append.1 hp with hp | hp
          · exact hmatched p hp
          · obtain ⟨e, he, rfl⟩ := List.mem_map.1 hp
            exact htaken e he
      · cases m with
        | put a n =>
          intro e he b k hb
          rcases List.mem_append.1 he with he | he
          · exact hqueue e he b k (List.mem_cons_of_mem _ hb)
          · obtain rfl := List.mem_singleton.1 he
            exact hhead _ hb
        | take b n =>
          exact (pull_forall (n := n) (P := fun a => ∀ b n, Move.take b n ∈ moves → R a b)
            fun e he b k hb => hqueue e he b k (List.mem_cons_of_mem _ hb)).2
  exact hgen moves ([], []) h (fun _ h => absurd h List.not_mem_nil) fun _ h => absurd h List.not_mem_nil

end Fifo
