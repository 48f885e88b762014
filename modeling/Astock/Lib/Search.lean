import Astock.Lib.Loop
import Mathlib.Tactic

/-!
# Breadth-first search that keeps the first visit

Items are queued in the order in which they are found, and each key is queued once: the
first item with a key wins. Items may carry more than their key, so what an item leads
to can depend on how it was reached.

* `run_ends`: **the search ends**, after as many steps as there are keys.
* `Inv`: what every run keeps: the items seen are walks from the start, in order of
  their depth, with distinct keys.
* `complete`: **the search misses nothing** when, for each key, the walks of least depth
  lead to all that the other walks lead to.
* `run_refines`: a loop whose turns follow the steps of the search ends with it.
-/

namespace Search

variable {ι κ : Type} [DecidableEq κ] (key : ι → κ) (moves : ι → List ι)

structure State (ι : Type) where
  /-- Items whose moves have been followed. -/
  done : List ι
  queue : List ι

/-- The items seen, in the order in which they were found. -/
def State.seen (s : State ι) : List ι := s.done ++ s.queue

def push (s : State ι) (x : ι) : State ι :=
  if key x ∈ s.seen.map key then s else { s with queue := s.queue ++ [x] }

/-- Follow the moves of the first item of the queue. -/
def next (s : State ι) : State ι :=
  match s.queue with
  | [] => s
  | x :: rest => (moves x).foldl (push key) { done := s.done ++ [x], queue := rest }

def run : ℕ → State ι → State ι
  | 0, s => s
  | n + 1, s => run n (next key moves s)

def start (x₀ : ι) : State ι where
  done := []
  queue := [x₀]

/-- The items that moves lead to. -/
abbrev Walk (x₀ : ι) : ι → Prop := Relation.ReflTransGen (fun x y => y ∈ moves x) x₀

variable {s : State ι} {x₀ : ι}

theorem foldl_push (ys : List ι) (s : State ι) : ∃ added,
    ys.foldl (push key) s = { s with queue := s.queue ++ added } ∧ added ⊆ ys ∧
      (∀ y ∈ ys, ∃ w ∈ s.seen ++ added, key w = key y) ∧
      ((s.seen.map key).Nodup → ((s.seen ++ added).map key).Nodup) := by
  induction ys generalizing s with
  | nil => exact ⟨[], by simp, by simp, by simp, by simp⟩
  | cons y ys ih =>
    rw [List.foldl_cons]
    by_cases hy : key y ∈ s.seen.map key
    · obtain ⟨added, heq, hsub, hall, hnodup⟩ := ih s
      refine ⟨added, by rw [push, if_pos hy, heq], fun w hw => List.mem_cons_of_mem _ (hsub hw), ?_, hnodup⟩
      intro z hz
      rcases List.mem_cons.1 hz with rfl | hz
      · obtain ⟨w, hw, hkey⟩ := List.mem_map.1 hy
        exact ⟨w, List.mem_append_left _ hw, hkey⟩
      · exact hall z hz
    · obtain ⟨added, heq, hsub, hall, hnodup⟩ := ih { s with queue := s.queue ++ [y] }
      have hseen : State.seen { s with queue := s.queue ++ [y] } ++ added = s.seen ++ (y :: added) := by
        simp [State.seen]
      rw [hseen] at hall hnodup
      refine ⟨y :: added, by rw [push, if_neg hy, heq]; simp, ?_, ?_, fun hd => hnodup ?_⟩
      · exact List.cons_subset_cons _ hsub
      · intro z hz
        rcases List.mem_cons.1 hz with rfl | hz
        · exact ⟨z, by simp, rfl⟩
        · exact hall z hz
      · have hone : State.seen { s with queue := s.queue ++ [y] } = s.seen ++ [y] := by
          simp [State.seen]
        rw [hone, List.map_append]
        exact List.nodup_append.2 ⟨hd, List.nodup_singleton _, by
          intro a ha b hb heq
          rw [List.map_singleton, List.mem_singleton] at hb
          exact hy (hb ▸ heq ▸ ha)⟩

/-- **One step** moves the first item of the queue to the items done and queues what is new
among its moves. -/
theorem next_cases {x : ι} {rest : List ι} (hq : s.queue = x :: rest) : ∃ added,
    (next key moves s).done = s.done ++ [x] ∧ (next key moves s).queue = rest ++ added ∧
      (next key moves s).seen = s.seen ++ added ∧ added ⊆ moves x ∧
      (∀ y ∈ moves x, ∃ w ∈ s.seen ++ added, key w = key y) ∧
      ((s.seen.map key).Nodup → ((s.seen ++ added).map key).Nodup) := by
  obtain ⟨added, heq, hsub, hall, hnodup⟩ :=
    foldl_push key (moves x) { done := s.done ++ [x], queue := rest }
  have hseen : State.seen { done := s.done ++ [x], queue := rest } = s.seen := by
    simp [State.seen, hq]
  rw [hseen] at hall hnodup
  have hnext : next key moves s = { done := s.done ++ [x], queue := rest ++ added } := by
    simp only [next, hq]
    exact heq
  refine ⟨added, by rw [hnext], by rw [hnext], ?_, hsub, hall, hnodup⟩
  rw [hnext]
  simp [State.seen, hq]

/-! ## The end -/

theorem next_of_empty (h : s.queue = []) : next key moves s = s := by simp only [next, h]

theorem run_of_empty (h : s.queue = []) (n : ℕ) : run key moves n s = s := by
  induction n with
  | zero => rfl
  | succ n ih => rw [run, next_of_empty key moves h, ih]

/-- What the steps keep holds after the run. -/
theorem run_induction {I : State ι → Prop} (hnext : ∀ s, I s → I (next key moves s)) (n : ℕ)
    (s : State ι) (h : I s) : I (run key moves n s) := by
  induction n generalizing s with
  | zero => exact h
  | succ n ih => exact ih _ (hnext s h)

/-- A run of `n` steps has followed `n` items, or has ended. -/
theorem run_progress (n : ℕ) (s : State ι) : (run key moves n s).queue = [] ∨
    (run key moves n s).done.length = s.done.length + n := by
  induction n generalizing s with
  | zero => exact .inr rfl
  | succ n ih =>
    cases hq : s.queue with
    | nil => exact .inl (by rw [run_of_empty key moves hq]; exact hq)
    | cons x rest =>
      obtain ⟨added, hdone, -⟩ := next_cases key moves hq
      refine (ih (next key moves s)).imp id fun hlen => ?_
      rw [run, hlen, hdone, List.length_append, List.length_singleton]
      omega

variable {key} {moves}

/-! ## The invariant -/

section Depth

variable {depth : ι → ℕ}

/-- **What every run keeps.** -/
structure Inv (key : ι → κ) (moves : ι → List ι) (depth : ι → ℕ) (x₀ : ι) (s : State ι) : Prop where
  first : s.seen.head? = some x₀
  walks : ∀ x ∈ s.seen, Walk moves x₀ x
  nodup : (s.seen.map key).Nodup
  sorted : s.seen.Pairwise fun x y => depth x ≤ depth y
  /-- The queue spans at most two depths. -/
  within : ∀ x rest, s.queue = x :: rest → ∀ w ∈ s.seen, depth w ≤ depth x + 1
  closed : ∀ x ∈ s.done, ∀ y ∈ moves x, ∃ w ∈ s.seen, key w = key y ∧ depth w ≤ depth x + 1

omit [DecidableEq κ] in
theorem Inv.start (x₀ : ι) : Inv key moves depth x₀ (start x₀) where
  first := rfl
  walks := by
    intro x hx
    obtain rfl := List.mem_singleton.1 hx
    exact .refl
  nodup := List.nodup_singleton _
  sorted := List.pairwise_singleton _ _
  within := by
    intro x rest hq w hw
    obtain ⟨rfl, rfl⟩ := List.cons.inj hq
    obtain rfl := List.mem_singleton.1 hw
    omega
  closed := by simp [Search.start]

/-- **A step keeps the invariant.** -/
theorem Inv.next (hdepth : ∀ x, ∀ y ∈ moves x, depth y = depth x + 1)
    (h : Inv key moves depth x₀ s) : Inv key moves depth x₀ (next key moves s) := by
  cases hq : s.queue with
  | nil => rwa [next_of_empty key moves hq]
  | cons x rest =>
    obtain ⟨added, hdone, hqueue, hseen, hsub, hall, hnodup⟩ :=
      next_cases key moves hq
    have hx : x ∈ s.seen := List.mem_append_right _ (by rw [hq]; exact List.mem_cons_self)
    have hdeep : ∀ y ∈ added, depth y = depth x + 1 := fun y hy => hdepth x y (hsub hy)
    have hwithin := h.within x rest hq
    have hafter : ∀ w ∈ s.seen ++ added, depth w ≤ depth x + 1 := by
      intro w hw
      rcases List.mem_append.1 hw with hw | hw
      · exact hwithin w hw
      · exact (hdeep w hw).le
    -- what is left of the queue is at least as deep as the item that was taken
    have hrest : ∀ y ∈ rest, depth x ≤ depth y := by
      have hsorted := h.sorted
      rw [State.seen, hq] at hsorted
      intro y hy
      exact (List.pairwise_cons.1 (List.pairwise_append.1 hsorted).2.1).1 y hy
    constructor
    · rw [hseen]
      have hfirst := h.first
      cases hs : s.seen with
      | nil => rw [hs] at hfirst; simp at hfirst
      | cons a l => rw [hs] at hfirst; exact hfirst
    · intro y hy
      rw [hseen] at hy
      rcases List.mem_append.1 hy with hy | hy
      · exact h.walks y hy
      · exact (h.walks x hx).tail (hsub hy)
    · rw [hseen]; exact hnodup h.nodup
    · rw [hseen]
      refine List.pairwise_append.2 ⟨h.sorted, ?_, fun a ha b hb => ?_⟩
      · refine List.pairwise_of_forall_mem_list fun a ha b hb => ?_
        rw [hdeep a ha, hdeep b hb]
      · rw [hdeep b hb]; exact hwithin a ha
    · intro z zs hz w hw
      rw [hseen] at hw
      rw [hqueue] at hz
      have hzx : depth x ≤ depth z := by
        have hmem : z ∈ rest ++ added := by rw [hz]; exact List.mem_cons_self
        rcases List.mem_append.1 hmem with hmem | hmem
        · exact hrest z hmem
        · rw [hdeep z hmem]; omega
      have hle := hafter w hw
      omega
    · intro z hz y hy
      rw [hdone] at hz
      rw [hseen]
      rcases List.mem_append.1 hz with hz | hz
      · obtain ⟨w, hw, hkey, hle⟩ := h.closed z hz y hy
        exact ⟨w, List.mem_append_left _ hw, hkey, hle⟩
      · obtain rfl := List.mem_singleton.1 hz
        obtain ⟨w, hw, hkey⟩ := hall y hy
        exact ⟨w, hw, hkey, hafter w hw⟩

theorem run_inv (hdepth : ∀ x, ∀ y ∈ moves x, depth y = depth x + 1) (x₀ : ι) (n : ℕ) :
    Inv key moves depth x₀ (run key moves n (start x₀)) :=
  run_induction key moves (fun _ h => h.next hdepth) n _ (.start x₀)

/-- **The search ends** after as many steps as there are keys to find. -/
theorem run_ends (hdepth : ∀ x, ∀ y ∈ moves x, depth y = depth x + 1) {keys : List κ}
    (hkeys : ∀ x, Walk moves x₀ x → key x ∈ keys) :
    (run key moves keys.length (start x₀)).queue = [] := by
  have hinv : Inv key moves depth x₀ _ := run_inv hdepth x₀ keys.length
  rcases run_progress key moves keys.length (start x₀) with hend | hlen
  · exact hend
  · -- each item seen has a key of its own
    have hsub : (run key moves keys.length (start x₀)).seen.map key ⊆ keys := by
      intro k hk
      obtain ⟨x, hx, rfl⟩ := List.mem_map.1 hk
      exact hkeys x (hinv.walks x hx)
    have hle := (hinv.nodup.subperm hsub).length_le
    rw [List.length_map, State.seen, List.length_append, hlen] at hle
    exact List.eq_nil_of_length_eq_zero (by omega)

/-! ## What the search finds -/

omit [DecidableEq κ] in
/-- **The search misses nothing**, and finds each key with a walk of least depth, when these
cover the other walks to the same key: whatever the covered walk leads to, the covering
one leads to as well. -/
theorem complete (hdepth : ∀ x, ∀ y ∈ moves x, depth y = depth x + 1) {covers : ι → ι → Prop}
    (hmoves : ∀ x y, covers x y → ∀ y' ∈ moves y, ∃ x' ∈ moves x, key x' = key y')
    (hcovers : ∀ x y, Walk moves x₀ x → Walk moves x₀ y → key x = key y →
      (∀ z, Walk moves x₀ z → key z = key x → depth x ≤ depth z) → covers x y)
    (h : Inv key moves depth x₀ s) (hend : s.queue = []) {y : ι} (hy : Walk moves x₀ y) :
    ∃ x ∈ s.done, key x = key y ∧ (∀ z, Walk moves x₀ z → key z = key y → depth x ≤ depth z) ∧
      covers x y := by
  have hdone : s.seen = s.done := by rw [State.seen, hend, List.append_nil]
  have hfirst : x₀ ∈ s.done := by
    have hhead := h.first
    rw [hdone] at hhead
    exact List.mem_of_mem_head? hhead
  -- the induction is on the depth of the walk
  have hfound : ∀ d, ∀ y, Walk moves x₀ y → depth y = d →
      ∃ x ∈ s.done, key x = key y ∧ depth x ≤ depth y := by
    intro d
    induction d using Nat.strong_induction_on with
    | _ d ih =>
      intro y hy hd
      rcases Relation.ReflTransGen.cases_tail hy with rfl | ⟨z, hz, hzy⟩
      · exact ⟨_, hfirst, rfl, le_refl _⟩
      · have hyz := hdepth z y hzy
        obtain ⟨x, hx, hkey, hle⟩ := ih (depth z) (by omega) z hz rfl
        have hwalk := h.walks x (hdone ▸ hx)
        have hleast : ∀ z', Walk moves x₀ z' → key z' = key x → depth x ≤ depth z' := by
          intro z' hz' hkey'
          by_cases hlt : depth z' < d
          · obtain ⟨x', hx', hkx', hle'⟩ := ih (depth z') hlt z' hz' rfl
            have heq : x' = x := List.inj_on_of_nodup_map (hdone ▸ h.nodup) hx' hx (hkx'.trans hkey')
            exact heq ▸ hle'
          · omega
        obtain ⟨x', hx', hkey'⟩ := hmoves x z (hcovers x z hwalk hz hkey hleast) y hzy
        obtain ⟨w, hw, hkw, hlew⟩ := h.closed x hx x' hx'
        exact ⟨w, hdone ▸ hw, hkw.trans hkey', by omega⟩
  obtain ⟨x, hx, hkey, -⟩ := hfound _ y hy rfl
  have hleast : ∀ z, Walk moves x₀ z → key z = key y → depth x ≤ depth z := by
    intro z hz hkz
    obtain ⟨x', hx', hkx', hle'⟩ := hfound _ z hz rfl
    have heq : x' = x :=
      List.inj_on_of_nodup_map (hdone ▸ h.nodup) hx' hx (hkx'.trans (hkz.trans hkey.symm))
    exact heq ▸ hle'
  exact ⟨x, hx, hkey, hleast, hcovers x y (h.walks x (hdone ▸ hx)) hy hkey
    fun z hz hkz => hleast z hz (hkz.trans hkey)⟩

end Depth

/-! ## Loops that search -/

/-- **A loop whose turns follow the steps of a search ends where the search ends.** -/
theorem run_refines {σ : Type} {turn : σ → Loop.Turn σ} {R : σ → State ι → Prop}
    (hstop : ∀ s t, R s t → t.queue = [] → turn s = .done)
    (hstep : ∀ s t x rest, R s t → t.queue = x :: rest →
      ∃ s', turn s = .again s' ∧ R s' (next key moves t)) :
    ∀ n s t, R s t → (run key moves n t).queue = [] →
      ∃ s', Loop.run turn (n + 1) s = some s' ∧ R s' (run key moves n t) := by
  intro n
  induction n with
  | zero =>
    intro s t h hend
    exact ⟨s, Loop.run_done (hstop s t h hend) 0, h⟩
  | succ n ih =>
    intro s t h hend
    cases hq : t.queue with
    | nil =>
      rw [run_of_empty key moves hq]
      exact ⟨s, Loop.run_done (hstop s t h hq) _, h⟩
    | cons x rest =>
      obtain ⟨s', hs', hR⟩ := hstep s t x rest h hq
      obtain ⟨s'', hrun, hR'⟩ := ih s' (next key moves t) hR hend
      exact ⟨s'', by rw [Loop.run_again hs', hrun], hR'⟩

end Search
