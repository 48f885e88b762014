import Astock.Lib.Links
import Astock.Proof.RevisionOrder

/-!
# Merged entities

`resolve_merge` follows the merges of a node. It stops at a node that was not merged, at one it has met,
and after 16 links.

* `resolveLoop_extra`: it stops by itself.
* `follow_resolveMerge`: without cycles it goes to the end of the chain, or 16 links far.
* `merges_resolve`: what snapshots show of it.
-/

namespace Astock

open Prog Bitemporal Links

variable {F : Type} {digest : ℕ → String → String} {merges : String → Option String}
  {rows : List EntityMergeRevision} {id last other : String} {n m : ℕ}

/-! ## The walk -/

/-- **The walk stops by itself**, within the 17 rounds that it is given: more change nothing. -/
theorem resolveLoop_extra (extra : ℕ) : ∀ (fuel : ℕ) (seen : List String) (current : String),
    seen.length ≤ 16 → 17 ≤ fuel + seen.length →
      resolveLoop merges (fuel + extra) seen current = resolveLoop merges fuel seen current := by
  intro fuel
  induction fuel with
  | zero => intro seen current hseen hfuel; omega
  | succ fuel ih =>
    intro seen current hseen hfuel
    rw [Nat.succ_add, resolveLoop, resolveLoop]
    cases merges current with
    | none => rfl
    | some next =>
      dsimp only
      by_cases hstop : current ∈ seen ∨ 16 < seen.length + 1
      · rw [if_pos hstop, if_pos hstop]
      · rw [if_neg hstop, if_neg hstop]
        rw [not_or] at hstop
        refine ih (current :: seen) next ?_ ?_
        · rw [List.length_cons]; omega
        · rw [List.length_cons]; omega

/-- **Without cycles** the walk goes on to the end of the chain, or until it has seen 16 nodes. -/
theorem resolveLoop_follow (hacyclic : Acyclic merges) : ∀ (n fuel : ℕ) (seen : List String)
    (current : String), seen.length ≤ 16 → 17 ≤ fuel + seen.length →
      (∀ x ∈ seen, ∃ m, follow merges (m + 1) x = some current) → Ends merges n current last →
      follow merges (min n (16 - seen.length)) current = some (resolveLoop merges fuel seen current) := by
  intro n
  induction n with
  | zero =>
    intro fuel seen current hseen hfuel _ hends
    obtain ⟨fuel, rfl⟩ : ∃ f, fuel = f + 1 := ⟨fuel - 1, by omega⟩
    obtain rfl : current = last := Option.some.inj hends.1
    rw [Nat.zero_min, follow, resolveLoop, hends.2]
  | succ n ih =>
    intro fuel seen current hseen hfuel hmet hends
    obtain ⟨fuel, rfl⟩ : ∃ f, fuel = f + 1 := ⟨fuel - 1, by omega⟩
    cases hnext : merges current with
    | none =>
      have := hends.1
      rw [follow_none hnext] at this
      cases this
    | some next =>
      rw [resolveLoop, hnext]
      dsimp only
      have hnew : current ∉ seen := by
        intro hmem
        obtain ⟨m, hm⟩ := hmet current hmem
        exact hacyclic m current hm
      by_cases hfull : seen.length = 16
      · rw [if_pos (.inr (by omega)), hfull, Nat.sub_self, Nat.min_zero, follow]
      · rw [if_neg (not_or.2 ⟨hnew, by omega⟩)]
        have hstep : min (n + 1) (16 - seen.length) = min n (16 - (current :: seen).length) + 1 := by
          rw [List.length_cons]; omega
        rw [hstep, follow_some hnext]
        have hrest : Ends merges n next last := by
          refine Ends.rest (a := current) (m := 1) ?_ ?_
          · rw [Nat.add_comm 1]; exact hends
          · rw [follow_some hnext, follow]
        refine ih fuel (current :: seen) next ?_ ?_ ?_ hrest
        · rw [List.length_cons]; omega
        · rw [List.length_cons]; omega
        · intro x hx
          rcases List.mem_cons.1 hx with rfl | hx
          · exact ⟨0, by rw [follow_some hnext, follow]⟩
          · obtain ⟨m, hm⟩ := hmet x hx
            exact ⟨m + 1, by rw [follow_of_add hm 1, follow_some hnext, follow]⟩

theorem follow_resolveMerge (hacyclic : Acyclic merges) (hends : Ends merges n id last) :
    follow merges (min n 16) id = some (resolveMerge id merges) :=
  resolveLoop_follow hacyclic n 17 [] id (by simp) (by simp) (fun _ h => absurd h List.not_mem_nil) hends

/-- **A chain of at most 16 links** is followed to its end. -/
theorem resolveMerge_of_ends (hacyclic : Acyclic merges) (hends : Ends merges n id last) (hn : n ≤ 16) :
    resolveMerge id merges = last := by
  have h := follow_resolveMerge hacyclic hends
  rw [Nat.min_eq_left hn, hends.1] at h
  exact (Option.some.inj h).symm

/-! ## Merges on record -/

/-- A node was merged into another. -/
def MergedAway (rows : List EntityMergeRevision) (id : String) : Prop := ∃ row ∈ rows, row.fromNodeId = id

/-- The merges lead from no node back to itself. -/
def NoCycle (rows : List EntityMergeRevision) : Prop :=
  ∀ id, ¬ Relation.TransGen (fun a b => ∃ row ∈ rows, row.fromNodeId = a ∧ row.toNodeId = b) id id

theorem mergeMap_eq_none : mergeMap rows id = none ↔ ¬ MergedAway rows id := by
  rw [mergeMap, Option.map_eq_none_iff, Table.find_eq_none]
  simp [MergedAway]

theorem mergeMap_eq_some (h : mergeMap rows id = some other) :
    ∃ row ∈ rows, row.fromNodeId = id ∧ row.toNodeId = other := by
  obtain ⟨row, hrow, rfl⟩ := Option.map_eq_some_iff.1 h
  exact ⟨row, List.mem_reverse.1 (Table.mem_of_find hrow), Table.key_of_find hrow, rfl⟩

theorem NoCycle.acyclic (h : NoCycle rows) : Acyclic (mergeMap rows) := by
  have hreach : ∀ n a b, follow (mergeMap rows) (n + 1) a = some b →
      Relation.TransGen (fun a b => ∃ row ∈ rows, row.fromNodeId = a ∧ row.toNodeId = b) a b := by
    intro n
    induction n with
    | zero =>
      intro a b hab
      cases hnext : mergeMap rows a with
      | none => rw [follow_none hnext] at hab; cases hab
      | some c =>
        rw [follow_some hnext] at hab
        obtain rfl := Option.some.inj hab
        exact .single (mergeMap_eq_some hnext)
    | succ n ih =>
      intro a b hab
      cases hnext : mergeMap rows a with
      | none => rw [follow_none hnext] at hab; cases hab
      | some c =>
        rw [follow_some hnext] at hab
        exact .head (mergeMap_eq_some hnext) (ih c b hab)
  exact fun n a ha => h a (hreach n a a ha)

theorem NoCycle.exists_ends (h : NoCycle rows) (id : String) : ∃ n last, Ends (mergeMap rows) n id last := by
  refine Links.exists_ends h.acyclic (rows.map (·.fromNodeId)) (fun a ha => ?_) id
  obtain ⟨b, hb⟩ := Option.ne_none_iff_exists'.1 ha
  obtain ⟨row, hrow, hfrom, -⟩ := mergeMap_eq_some hb
  exact List.mem_map.2 ⟨row, hrow, hfrom⟩

/-- The chain of merges of a node has at most 16 links. -/
def Short (rows : List EntityMergeRevision) (id : String) : Prop :=
  ∀ n last, Ends (mergeMap rows) n id last → n ≤ 16

/-- A node whose chain is short resolves to a node that was not merged. -/
theorem NoCycle.resolved (h : NoCycle rows) (hshort : Short rows id) :
    ∃ n, Ends (mergeMap rows) n id (resolveMerge id (mergeMap rows)) := by
  obtain ⟨n, last, hends⟩ := h.exists_ends id
  rw [resolveMerge_of_ends h.acyclic hends (hshort n last hends)]
  exact ⟨n, hends⟩

theorem NoCycle.connected (h : NoCycle rows) (hshort : Short rows id)
    (hm : follow (mergeMap rows) m id = some other) :
    resolveMerge other (mergeMap rows) = resolveMerge id (mergeMap rows) := by
  obtain ⟨n, hends⟩ := h.resolved hshort
  have hle := hends.le hm
  obtain ⟨d, rfl⟩ : ∃ d, n = m + d := ⟨n - m, by omega⟩
  have hn := hshort _ _ hends
  exact resolveMerge_of_ends h.acyclic (hends.rest hm) (by omega)

variable [F64 F]

/-- **Merges are resolved** along chains of at most 16 links, and the walk stops in any case. -/
theorem merges_resolve (digest : ℕ → String → String) :
    (∀ merges id extra, resolveLoop merges (17 + extra) [] id = resolveMerge id merges) ∧
    (∀ rows, NoCycle rows → ∀ id,
      (∃ n last, Ends (mergeMap rows) n id last ∧ ¬ MergedAway rows last ∧
        follow (mergeMap rows) (min n 16) id = some (resolveMerge id (mergeMap rows))) ∧
      (Short rows id → ¬ MergedAway rows (resolveMerge id (mergeMap rows)) ∧
        resolveMerge (resolveMerge id (mergeMap rows)) (mergeMap rows) = resolveMerge id (mergeMap rows) ∧
        ∀ m other, follow (mergeMap rows) m id = some other →
          resolveMerge other (mergeMap rows) = resolveMerge id (mergeMap rows))) ∧
    ∀ (g : GraphStore F) now b k snapshot, (exec (graphAsOf digest now b k) g).1 = .ok snapshot →
      NoCycle (g.loadAsOfMerges b k) → ∀ e ∈ snapshot.edges,
        (Short (g.loadAsOfMerges b k) e.originalSrc → ¬ MergedAway (g.loadAsOfMerges b k) e.src) ∧
        (Short (g.loadAsOfMerges b k) e.originalDst → ¬ MergedAway (g.loadAsOfMerges b k) e.dst) := by
  have hend : ∀ rows, NoCycle rows → ∀ id, Short rows id →
      ¬ MergedAway rows (resolveMerge id (mergeMap rows)) := by
    intro rows hrows id hshort
    obtain ⟨n, hends⟩ := hrows.resolved hshort
    exact mergeMap_eq_none.1 hends.2
  refine ⟨fun merges id extra => ?_, fun rows hrows id => ⟨?_, fun hshort => ?_⟩, ?_⟩
  · exact resolveLoop_extra extra 17 [] id (by simp) (by simp)
  · obtain ⟨n, last, hends⟩ := hrows.exists_ends id
    exact ⟨n, last, hends, mergeMap_eq_none.1 hends.2, follow_resolveMerge hrows.acyclic hends⟩
  · obtain ⟨n, hends⟩ := hrows.resolved hshort
    exact ⟨hend rows hrows id hshort, hrows.connected hshort hends.1,
      fun m other hm => hrows.connected hshort hm⟩
  · intro g now b k snapshot h hcycle e he
    obtain ⟨-, -, rfl⟩ := graphAsOf_ok h
    -- an edge shows what the ends of its revision resolve to
    have hshown : e.src = resolveMerge e.originalSrc (mergeMap (g.loadAsOfMerges b k)) ∧
        e.dst = resolveMerge e.originalDst (mergeMap (g.loadAsOfMerges b k)) := by
      unfold GraphStore.snapshotAt buildSnapshot at he
      dsimp only at he
      rw [List.mem_insertionSort, List.mem_map] at he
      obtain ⟨r, -, rfl⟩ := he
      exact ⟨rfl, rfl⟩
    rw [hshown.1, hshown.2]
    exact ⟨hend _ hcycle e.originalSrc, hend _ hcycle e.originalDst⟩

/-- Node `i` was merged into node `i + 1`; a node is named by as many letters. -/
def mergeLink (i : ℕ) : EntityMergeRevision where
  mergeId := "merge:" ++ toString i
  fromNodeId := String.ofList (List.replicate i 'n')
  toNodeId := String.ofList (List.replicate (i + 1) 'n')
  validFrom := 0
  validTo := none
  recordedAt := 0
  supersededAt := none
  reason := "同一主体"

theorem noCycle_links (n : ℕ) : NoCycle ((List.range n).map mergeLink) := by
  intro id hcycle
  have hlonger : ∀ a b : String, Relation.TransGen (fun a b => ∃ row ∈ (List.range n).map mergeLink,
      row.fromNodeId = a ∧ row.toNodeId = b) a b → a.length < b.length := by
    intro a b hab
    induction hab with
    | single h =>
      obtain ⟨row, hrow, rfl, rfl⟩ := h
      obtain ⟨i, -, rfl⟩ := List.mem_map.1 hrow
      simp [mergeLink]
    | tail _ h ih =>
      obtain ⟨row, hrow, rfl, rfl⟩ := h
      obtain ⟨i, -, rfl⟩ := List.mem_map.1 hrow
      simp [mergeLink] at ih ⊢
      omega
  exact lt_irrefl _ (hlonger id id hcycle)

theorem merges_resolve_links :
    resolveMerge "" (mergeMap ((List.range 16).map mergeLink)) = "nnnnnnnnnnnnnnnn" := by
  have hends : Ends (mergeMap ((List.range 16).map mergeLink)) 16 "" "nnnnnnnnnnnnnnnn" := by
    constructor <;> decide
  obtain ⟨⟨n, last, hends', -, hfollow⟩, -⟩ :=
    (merges_resolve (F := ℚ) salesDigest).2.1 _ (noCycle_links 16) ""
  obtain ⟨rfl, rfl⟩ := hends.unique hends'
  exact (Option.some.inj (hfollow.symm.trans hends.1))

/-- A chain of 17 links is not followed to its end. -/
theorem seventeenth_link_ignored : ¬ ∀ rows, NoCycle rows → ∀ id n last,
    Ends (mergeMap rows) n id last → resolveMerge id (mergeMap rows) = last := by
  intro h
  have hends : Ends (mergeMap ((List.range 17).map mergeLink)) 17 "" "nnnnnnnnnnnnnnnnn" := by
    constructor <;> decide
  have heq := h _ (noCycle_links 17) "" 17 _ hends
  revert heq
  decide

end Astock
