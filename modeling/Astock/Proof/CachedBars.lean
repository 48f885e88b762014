import Astock.Proof.StoredBars

/-!
# The cache of the bar store

* `Undisturbed`: no merge of the key has replaced the file and returned, and no cleanup has removed
  it and returned, between the moment at which a load reads it and the one at which the load puts
  what it read into the cache.
* `coherent_undisturbed`: **in every interleaving whose loads are undisturbed, the cache is
  coherent**: a load that starts after a merge has returned sees it, and when no call is in flight,
  what is cached is what is stored.
-/

namespace Astock

open Slots

variable {F : Type} {root : List String} {keys : List BarKey} {s : BarStore F} {move : BarMove F}

/-- When the merge replaced its file. -/
def BarMerge.replacedAt (c : BarMerge F) : Option ℕ :=
  match c.phase with
  | .invalidate replacedAt _ | .returned replacedAt _ _ => some replacedAt
  | _ => none

/-- When a load that is about to fill the cache read its file. -/
def BarLoad.readAt (c : BarLoad F) : Option ℕ :=
  match c.phase with
  | .insert readAt _ => some readAt
  | _ => none

namespace BarStore

/-! ## Calls -/

/-- Loads and merges of the keys, and cleanups. -/
def Uses (keys : List BarKey) : BarMove F → Prop
  | .load key | .merge key _ => key ∈ keys
  | _ => True

instance (keys : List BarKey) : ∀ move : BarMove F, Decidable (Uses keys move)
  | .load key | .merge key _ => inferInstanceAs (Decidable (key ∈ keys))
  | .stepLoad _ _ | .stepMerge _ | .cleanup | .remove _ _ | .clear _ => isTrue trivial

/-- No two keys share an entry of the cache. -/
def CachedApart (keys : List BarKey) : Prop :=
  ∀ key ∈ keys, ∀ key' ∈ keys, key.cacheKey = key'.cacheKey → key = key'

instance (keys : List BarKey) : Decidable (CachedApart keys) :=
  inferInstanceAs (Decidable (∀ key ∈ keys, _))

/-- A load that is about to fill the cache: whoever changed its file since has not returned. -/
def Undisturbed (root : List String) (s : BarStore F) : BarMove F → Prop
  | .stepLoad i _ => ∀ c ∈ s.loads[i]?, ∀ readAt ∈ c.readAt,
      (∀ m ∈ s.merges, m.key = c.key → m.returnedAt ≠ none → ∀ r ∈ m.replacedAt, r < readAt) ∧
      ∀ k ∈ s.cleanups, k.returned = true → ∀ p ∈ k.removed, p.2 = barPath root c.key → p.1 < readAt
  | _ => True

instance (s : BarStore F) : ∀ move, Decidable (Undisturbed root s move)
  | .stepLoad i _ => inferInstanceAs (Decidable (∀ c ∈ s.loads[i]?, ∀ readAt ∈ c.readAt,
      (∀ m ∈ s.merges, _) ∧ ∀ k ∈ s.cleanups, _))
  | .load _ | .merge _ _ | .stepMerge _ | .cleanup | .remove _ _ | .clear _ => isTrue trivial

/-! ## What is cached is stored, or is about to be dropped -/

/-- Rows of a file as they are, or as they were before a merge or a removal not before `since`. -/
def ReadSince (root : List String) (s : BarStore F) (key : BarKey) (since : ℕ)
    (rows : List (BarRow F)) : Prop :=
  rows = s.contents (barPath root key) ∨
    (∃ m ∈ s.merges, m.key = key ∧ ∃ r ∈ m.replacedAt, since ≤ r) ∨
    ∃ k ∈ s.cleanups, ∃ p ∈ k.removed, p.2 = barPath root key ∧ since ≤ p.1

/-- Rows of a file as they are, or as they were before a merge or a cleanup that will drop them from
the cache. -/
def Provisional (root : List String) (s : BarStore F) (key : BarKey) (rows : List (BarRow F)) : Prop :=
  rows = s.contents (barPath root key) ∨
    (∃ m ∈ s.merges, m.key = key ∧ m.replacedAt ≠ none ∧ m.returnedAt = none) ∨
    ∃ k ∈ s.cleanups, k.returned = false

structure Cached (root : List String) (keys : List BarKey) (s : BarStore F) : Prop where
  merged : ∀ m ∈ s.merges, m.key ∈ keys
  loaded : ∀ c ∈ s.loads, c.key ∈ keys
  entries : ∀ key ∈ keys, ∀ rows, s.cache key.cacheKey = some rows → Provisional root s key rows
  reads : ∀ c ∈ s.loads, ∀ readAt rows, c.phase = .insert readAt rows →
    readAt < s.clock ∧ ReadSince root s c.key readAt rows

/-- A change of the loads alone. -/
theorem Cached.setLoad (h : Cached root keys s) {i : ℕ} {c : BarLoad F} {phase : LoadPhase F}
    (hc : s.loads[i]? = some c) (hphase : ∀ readAt rows, phase = .insert readAt rows →
      readAt < s.clock ∧ ReadSince root s c.key readAt rows) : Cached root keys (s.setLoad i phase) := by
  refine ⟨h.merged, fun d' hd' => ?_, h.entries, fun d' hd' readAt rows hd'phase => ?_⟩
  · obtain ⟨d, hd, rfl | ⟨-, rfl⟩⟩ := exists_of_mem_modify hd'
    · exact h.loaded _ hd
    · exact h.loaded d hd
  · obtain ⟨d, hd, rfl | ⟨hi, rfl⟩⟩ := exists_of_mem_modify hd'
    · exact h.reads _ hd readAt rows hd'phase
    · obtain rfl := Option.some.inj (hi.symm.trans hc)
      exact hphase readAt rows hd'phase

theorem Cached.tick (h : Cached root keys s) : Cached root keys s.tick :=
  ⟨h.merged, h.loaded, h.entries, fun c hc readAt rows hphase =>
    ⟨Nat.lt_succ_of_lt (h.reads c hc readAt rows hphase).1, (h.reads c hc readAt rows hphase).2⟩⟩

/-- An entry is put or dropped. -/
theorem Cached.setCache (h : Cached root keys s) {cacheKey : String} {rows : Option (List (BarRow F))}
    (hrows : ∀ key ∈ keys, key.cacheKey = cacheKey → ∀ r ∈ rows, Provisional root s key r) :
    Cached root keys (s.setCache cacheKey rows) := by
  refine ⟨h.merged, h.loaded, fun key hkey r hr => ?_, h.reads⟩
  by_cases hsame : key.cacheKey = cacheKey
  · have hcache : (s.setCache cacheKey rows).cache key.cacheKey = rows := by
      unfold BarStore.setCache
      rw [hsame]
      simp
    rw [hcache] at hr
    exact hrows key hkey hsame r hr
  · have hcache : (s.setCache cacheKey rows).cache key.cacheKey = s.cache key.cacheKey := by
      unfold BarStore.setCache
      simp [hsame]
    rw [hcache] at hr
    exact h.entries key hkey r hr

theorem Cached.evict (h : Cached root keys s) (evicted : Option String) :
    Cached root keys (s.evict evicted) := by
  cases evicted with
  | none => exact h
  | some key => exact h.setCache fun _ _ _ r hr => by simp at hr

/-- **A load fills the cache**: whoever changed the file since it was read will drop the entry. -/
theorem Cached.provisional (h : Cached root keys s) {i : ℕ} {c : BarLoad F} {readAt : ℕ}
    {rows : List (BarRow F)} (evicted : Option String) (hc : s.loads[i]? = some c)
    (hphase : c.phase = .insert readAt rows) (hmove : Undisturbed root s (.stepLoad i evicted)) :
    Provisional root s c.key rows := by
  obtain ⟨hmerges, hcleanups⟩ := hmove c hc readAt (by simp [BarLoad.readAt, hphase])
  rcases (h.reads c (List.mem_of_getElem? hc) readAt rows hphase).2 with
    hsame | ⟨m, hm, hkey, r, hr, hle⟩ | ⟨k, hk, p, hp, hpath, hle⟩
  · exact .inl hsame
  · refine .inr (.inl ⟨m, hm, hkey, ?_, ?_⟩)
    · rw [Option.mem_def.1 hr]
      simp
    · by_contra hreturned
      have := hmerges m hm hkey hreturned r hr
      omega
  · refine .inr (.inr ⟨k, hk, ?_⟩)
    by_contra hreturned
    have := hcleanups k hk (by simpa using hreturned) p hp hpath
    omega

/-- What is read stays read as long as merges and removals are remembered. -/
theorem ReadSince.mono {s' : BarStore F} {key : BarKey} {since : ℕ} {rows : List (BarRow F)}
    (h : ReadSince root s key since rows)
    (hfile : ReadSince root s' key since (s.contents (barPath root key)))
    (hmerges : ∀ m ∈ s.merges, ∃ m' ∈ s'.merges, m'.key = m.key ∧ ∀ r ∈ m.replacedAt, r ∈ m'.replacedAt)
    (hcleanups : ∀ k ∈ s.cleanups, ∃ k' ∈ s'.cleanups, ∀ p ∈ k.removed, p ∈ k'.removed) :
    ReadSince root s' key since rows := by
  rcases h with rfl | ⟨m, hm, hkey, r, hr, hle⟩ | ⟨k, hk, p, hp, hpath, hle⟩
  · exact hfile
  · obtain ⟨m', hm', hkey', hreplaced⟩ := hmerges m hm
    exact .inr (.inl ⟨m', hm', hkey'.trans hkey, r, hreplaced r hr, hle⟩)
  · obtain ⟨k', hk', hremoved⟩ := hcleanups k hk
    exact .inr (.inr ⟨k', hk', p, hremoved p hp, hpath, hle⟩)

/-- The merges after a change of phase. -/
theorem exists_setMerge {i : ℕ} {c : BarMerge F} {phase : MergePhase F} (hc : s.merges[i]? = some c)
    (hreplaced : ∀ r ∈ c.replacedAt, r ∈ ({ c with phase := phase } : BarMerge F).replacedAt) :
    ∀ m ∈ s.merges, ∃ m' ∈ (s.setMerge i phase).merges, m'.key = m.key ∧
      ∀ r ∈ m.replacedAt, r ∈ m'.replacedAt := by
  intro m hm
  obtain ⟨m', hm', rfl | ⟨hi, rfl⟩⟩ :=
    exists_mem_modify (fun c : BarMerge F => { c with phase := phase }) i hm
  · exact ⟨_, hm', rfl, fun r hr => hr⟩
  · obtain rfl := Option.some.inj (hi.symm.trans hc)
    exact ⟨_, hm', rfl, hreplaced⟩

/-- A merge goes on, and has no entry to drop any more. -/
theorem Cached.setMerge (h : Cached root keys s) {i : ℕ} {c : BarMerge F} {phase : MergePhase F}
    (hc : s.merges[i]? = some c)
    (hreplaced : ∀ r ∈ c.replacedAt, r ∈ ({ c with phase := phase } : BarMerge F).replacedAt)
    (hdropped : c.replacedAt ≠ none → s.cache c.key.cacheKey = none) :
    Cached root keys (s.setMerge i phase) := by
  refine ⟨fun d' hd' => ?_, h.loaded, fun key hkey rows hrows => ?_, fun d hd readAt rows hphase => ?_⟩
  · obtain ⟨d, hd, rfl | ⟨-, rfl⟩⟩ := exists_of_mem_modify hd'
    · exact h.merged _ hd
    · exact h.merged d hd
  · rcases h.entries key hkey rows hrows with hsame | ⟨m, hm, hmkey, hrep, hflight⟩ | hcleanup
    · exact .inl hsame
    · obtain ⟨m', hm', rfl | ⟨hi, rfl⟩⟩ :=
        exists_mem_modify (fun c : BarMerge F => { c with phase := phase }) i hm
      · exact .inr (.inl ⟨_, hm', hmkey, hrep, hflight⟩)
      · -- the merge whose entry is dropped
        obtain rfl := Option.some.inj (hi.symm.trans hc)
        have hnone := hdropped hrep
        rw [hmkey] at hnone
        rw [show (s.setMerge i phase).cache key.cacheKey = s.cache key.cacheKey from rfl, hnone] at hrows
        simp at hrows
    · exact .inr (.inr hcleanup)
  · obtain ⟨hlt, hread⟩ := h.reads d hd readAt rows hphase
    exact ⟨hlt, hread.mono (.inl rfl) (exists_setMerge hc hreplaced) fun k hk => ⟨k, hk, fun _ hp => hp⟩⟩

/-- A file is written or removed, by a call that will drop the entry. -/
theorem Cached.setFile (h : Cached root keys s) (path : List String) (rows : Option (List (BarRow F)))
    (hentries : ∀ key ∈ keys, barPath root key = path →
      (∃ m ∈ s.merges, m.key = key ∧ m.replacedAt ≠ none ∧ m.returnedAt = none) ∨
        ∃ k ∈ s.cleanups, k.returned = false)
    (hreads : ∀ key ∈ keys, barPath root key = path → ∀ since < s.clock,
      (∃ m ∈ s.merges, m.key = key ∧ ∃ r ∈ m.replacedAt, since ≤ r) ∨
        ∃ k ∈ s.cleanups, ∃ p ∈ k.removed, p.2 = barPath root key ∧ since ≤ p.1) :
    Cached root keys (s.setFile path rows) := by
  refine ⟨h.merged, h.loaded, fun key hkey r hr => ?_, fun c hc readAt r hphase => ?_⟩
  · by_cases hpath : barPath root key = path
    · exact .inr (hentries key hkey hpath)
    · rcases h.entries key hkey r hr with hsame | hlater
      · exact .inl (hsame.trans (contents_setFile_of_ne s hpath rows).symm)
      · exact .inr hlater
  · obtain ⟨hlt, hread⟩ := h.reads c hc readAt r hphase
    refine ⟨hlt, ?_⟩
    by_cases hpath : barPath root c.key = path
    · exact .inr (hreads c.key (h.loaded c hc) hpath readAt hlt)
    · rcases hread with hsame | hlater
      · exact .inl (hsame.trans (contents_setFile_of_ne s hpath rows).symm)
      · exact .inr hlater

/-- A cleanup goes on: while it is in flight, or when the cache is empty. -/
theorem Cached.setCleanup (h : Cached root keys s) {i : ℕ} {c c' : BarCleanup}
    (hc : s.cleanups[i]? = some c) (hremoved : ∀ p ∈ c.removed, p ∈ c'.removed)
    (hflight : c'.returned = false ∨ ∀ key, s.cache key = none) :
    Cached root keys (s.setCleanup i c') := by
  have hself : c' ∈ s.cleanups.set i c' := List.mem_set (List.getElem?_eq_some_iff.1 hc).1 c'
  have hforth : ∀ k ∈ s.cleanups, ∃ k' ∈ (s.setCleanup i c').cleanups, ∀ p ∈ k.removed, p ∈ k'.removed := by
    intro k hk
    obtain ⟨j, hj⟩ := List.mem_iff_getElem?.1 hk
    by_cases hij : i = j
    · subst hij
      obtain rfl := Option.some.inj (hj.symm.trans hc)
      exact ⟨c', hself, hremoved⟩
    · exact ⟨k, List.mem_of_getElem? ((List.getElem?_set_ne hij).trans hj), fun _ hp => hp⟩
  refine ⟨h.merged, h.loaded, fun key hkey rows hrows => ?_, fun d hd readAt rows hphase => ?_⟩
  · rcases hflight with hflight | hempty
    · rcases h.entries key hkey rows hrows with hsame | hmerge | -
      · exact .inl hsame
      · exact .inr (.inl hmerge)
      · exact .inr (.inr ⟨c', hself, hflight⟩)
    · rw [show (s.setCleanup i c').cache key.cacheKey = s.cache key.cacheKey from rfl, hempty] at hrows
      simp at hrows
  · obtain ⟨hlt, hread⟩ := h.reads d hd readAt rows hphase
    exact ⟨hlt, hread.mono (.inl rfl) (fun m hm => ⟨m, hm, rfl, fun _ hr => hr⟩) hforth⟩

theorem Cached.step (hfiles : Separate root keys) (hcache : CachedApart keys) (h : Cached root keys s)
    (huses : Uses keys move) (hmove : Undisturbed root s move) : Cached root keys (s.step root move) := by
  have hdoes := step_does root s move
  generalize s.step root move = s' at hdoes ⊢
  have htick := h.tick
  cases hdoes with
  | nothing => exact htick
  | load key =>
    refine ⟨htick.merged, fun c hc => ?_, htick.entries, fun c hc readAt rows hphase => ?_⟩
    · rcases List.mem_append.1 hc with hc | hc
      · exact h.loaded c hc
      · rw [List.mem_singleton.1 hc]
        exact huses
    · rcases List.mem_append.1 hc with hc | hc
      · exact htick.reads c hc readAt rows hphase
      · rw [List.mem_singleton.1 hc] at hphase
        simp at hphase
  | hit i evicted c rows hc hphase hentry =>
    exact htick.setLoad hc fun readAt r hr => by simp at hr
  | miss i evicted c hc hphase => exact htick.setLoad hc fun readAt r hr => by simp at hr
  | readLoad i evicted c hc hphase =>
    refine htick.setLoad hc fun readAt r hr => ?_
    obtain ⟨rfl, rfl⟩ := LoadPhase.insert.inj hr
    exact ⟨Nat.lt_succ_self _, .inl rfl⟩
  | insert i evicted c readAt rows hc hphase =>
    have hfilled : Cached root keys ((s.tick.evict evicted).setCache c.key.cacheKey (some rows)) := by
      refine (htick.evict evicted).setCache fun key hkey hsame r hr => ?_
      obtain rfl := hcache key hkey c.key (h.loaded c (List.mem_of_getElem? hc)) hsame
      obtain rfl := Option.some.inj hr
      have hprovisional := htick.provisional evicted hc hphase hmove
      cases evicted <;> exact hprovisional
    have hload : ((s.tick.evict evicted).setCache c.key.cacheKey (some rows)).loads[i]? = some c := by
      cases evicted <;> exact hc
    exact hfilled.setLoad hload fun _ r hr => by simp at hr
  | merge key newBars =>
    refine ⟨fun m hm => ?_, h.loaded, fun key' hkey' rows hrows => ?_, fun c hc readAt rows hphase => ?_⟩
    · rcases List.mem_append.1 hm with hm | hm
      · exact h.merged m hm
      · rw [List.mem_singleton.1 hm]
        exact huses
    · rcases htick.entries key' hkey' rows hrows with hsame | ⟨m, hm, hlater⟩ | hcleanup
      · exact .inl hsame
      · exact .inr (.inl ⟨m, List.mem_append_left _ hm, hlater⟩)
      · exact .inr (.inr hcleanup)
    · obtain ⟨hlt, hread⟩ := htick.reads c hc readAt rows hphase
      exact ⟨hlt, hread.mono (.inl rfl)
        (fun m hm => ⟨m, List.mem_append_left _ hm, rfl, fun _ hr => hr⟩) fun k hk => ⟨k, hk, fun _ hp => hp⟩⟩
  | readMerge i c hc hphase =>
    have hnone : c.replacedAt = none := by simp [BarMerge.replacedAt, hphase]
    exact htick.setMerge hc (by simp [hnone]) fun hrep => absurd hnone hrep
  | replace i c loaded hc hphase =>
    have hnone : c.replacedAt = none := by simp [BarMerge.replacedAt, hphase]
    have hmerge : Cached root keys (s.tick.setMerge i
        (.invalidate s.clock (mergeBars loaded c.newBars).length)) :=
      htick.setMerge hc (by simp [hnone]) fun hrep => absurd hnone hrep
    have hself : ({ c with phase := .invalidate s.clock (mergeBars loaded c.newBars).length } :
        BarMerge F) ∈ (s.tick.setMerge i
          (.invalidate s.clock (mergeBars loaded c.newBars).length)).merges := mem_modify_self hc
    have hwritten := hmerge.setFile (barPath root c.key) (some (mergeBars loaded c.newBars))
      (fun key hkey hpath => ?_) fun key hkey hpath since hlt => ?_
    · exact hwritten
    · obtain rfl := hfiles.apart key hkey c.key (h.merged c (List.mem_of_getElem? hc)) hpath
      exact .inl ⟨_, hself, rfl, by simp [BarMerge.replacedAt], by simp [BarMerge.returnedAt]⟩
    · obtain rfl := hfiles.apart key hkey c.key (h.merged c (List.mem_of_getElem? hc)) hpath
      exact .inl ⟨_, hself, rfl, s.clock, by simp [BarMerge.replacedAt], Nat.lt_succ_iff.1 hlt⟩
  | invalidate i c replacedAt count hc hphase =>
    have hdropped : Cached root keys (s.tick.setCache c.key.cacheKey none) :=
      htick.setCache fun _ _ _ r hr => by simp at hr
    refine hdropped.setMerge hc ?_ fun _ => ?_
    · simp [BarMerge.replacedAt, hphase]
    · unfold BarStore.setCache
      simp
  | cleanup =>
    refine ⟨htick.merged, htick.loaded, fun key hkey rows hrows => ?_, fun c hc readAt rows hphase => ?_⟩
    · exact .inr (.inr ⟨{}, List.mem_append_right _ List.mem_cons_self, rfl⟩)
    · obtain ⟨hlt, hread⟩ := htick.reads c hc readAt rows hphase
      exact ⟨hlt, hread.mono (.inl rfl) (fun m hm => ⟨m, hm, rfl, fun _ hr => hr⟩)
        fun k hk => ⟨k, List.mem_append_left _ hk, fun _ hp => hp⟩⟩
  | remove i path c hc hflight =>
    have hcleanup : Cached root keys (s.tick.setCleanup i
        { c with removed := c.removed ++ [(s.clock, path)] }) :=
      htick.setCleanup hc (fun p hp => List.mem_append_left _ hp) (.inl hflight)
    have hself : ({ c with removed := c.removed ++ [(s.clock, path)] } : BarCleanup) ∈
        (s.tick.setCleanup i { c with removed := c.removed ++ [(s.clock, path)] }).cleanups :=
      List.mem_set (List.getElem?_eq_some_iff.1 hc).1 _
    have hremoved := hcleanup.setFile path none (fun key hkey hpath => ?_)
      fun key hkey hpath since hlt => ?_
    · exact hremoved
    · exact .inr ⟨_, hself, hflight⟩
    · exact .inr ⟨_, hself, (s.clock, path), List.mem_append_right _ List.mem_cons_self, hpath.symm,
        Nat.lt_succ_iff.1 hlt⟩
  | clear i c hc hflight =>
    have hempty : Cached root keys { s.tick with cache := fun _ => none } :=
      ⟨htick.merged, htick.loaded, fun key hkey rows hrows => by simp at hrows, htick.reads⟩
    exact hempty.setCleanup hc (fun p hp => hp) (.inr fun _ => rfl)

/-! ## What a load returns -/

theorem evict_cache {evicted : Option String} {key : String} {rows : List (BarRow F)}
    (h : (s.tick.evict evicted).cache key = some rows) : s.cache key = some rows := by
  cases evicted with
  | none => exact h
  | some k =>
    by_cases hk : key = k
    · have hnone : (s.tick.evict (some k)).cache key = none := by
        unfold BarStore.evict BarStore.setCache
        simp [hk]
      rw [hnone] at h
      simp at h
    · rw [← h]
      unfold BarStore.evict BarStore.setCache
      simp [hk, tick]

/-- What each file held at each time. -/
abbrev History (F : Type) := ℕ → List String → List (BarRow F)

/-- Rows that the file held at a time after every merge of the key that returned before `before`. -/
def Seen (root : List String) (history : History F) (s : BarStore F) (key : BarKey)
    (rows : List (BarRow F)) (before : ℕ) : Prop :=
  ∃ τ ≤ s.clock, rows = history τ (barPath root key) ∧ ∀ m ∈ s.merges, m.key = key →
    ∀ t ∈ m.returnedAt, t < before → ∀ r ∈ m.replacedAt, r < τ

structure Traced (root : List String) (keys : List BarKey) (history : History F) (s : BarStore F) :
    Prop where
  now : history s.clock = s.contents
  loaded : ∀ c ∈ s.loads, c.key ∈ keys ∧ c.startedAt < s.clock
  times : ∀ m ∈ s.merges, (∀ r ∈ m.replacedAt, r < s.clock) ∧ ∀ t ∈ m.returnedAt, t < s.clock ∧
    ∀ r ∈ m.replacedAt, r < t
  entries : ∀ key ∈ keys, ∀ rows, s.cache key.cacheKey = some rows →
    Seen root history s key rows s.clock
  reads : ∀ c ∈ s.loads, ∀ readAt rows, c.phase = .insert readAt rows →
    c.startedAt < readAt ∧ readAt ≤ s.clock ∧ rows = history readAt (barPath root c.key)
  served : ∀ c ∈ s.loads, ∀ time rows, c.phase = .returned time rows →
    Seen root history s c.key rows c.startedAt

theorem Seen.mono {s' : BarStore F} {history : History F} {key : BarKey} {rows : List (BarRow F)}
    {before before' : ℕ} (h : Seen root history s key rows before) (hclock : s.clock ≤ s'.clock)
    (hmerges : ∀ m' ∈ s'.merges, m'.key = key → ∀ t ∈ m'.returnedAt, t < before' →
      t < before ∧ m' ∈ s.merges) : Seen root history s' key rows before' := by
  obtain ⟨τ, hτ, hrows, hlate⟩ := h
  refine ⟨τ, hτ.trans hclock, hrows, fun m' hm' hkey t ht hlt => ?_⟩
  obtain ⟨hbefore, hm⟩ := hmerges m' hm' hkey t ht hlt
  exact hlate m' hm hkey t ht hbefore

/-- A step of a load. -/
theorem Traced.stepLoad {history : History F} (h : Traced root keys history s) {i : ℕ} {c : BarLoad F}
    {phase : LoadPhase F} {cache : String → Option (List (BarRow F))}
    (hnow : history (s.clock + 1) = s.contents) (hc : s.loads[i]? = some c)
    (hcache : ∀ key ∈ keys, ∀ rows, cache key.cacheKey = some rows →
      Seen root history s key rows s.clock)
    (hread : ∀ readAt rows, phase = .insert readAt rows →
      readAt = s.clock ∧ rows = s.contents (barPath root c.key))
    (hserved : ∀ time rows, phase = .returned time rows → Seen root history s c.key rows c.startedAt) :
    Traced root keys history { s.tick.setLoad i phase with cache := cache } := by
  have hloads : ∀ d' ∈ (s.tick.setLoad i phase).loads, d' ∈ s.loads ∨ d' = { c with phase := phase } := by
    intro d' hd'
    obtain ⟨d, hd, rfl | ⟨hi, rfl⟩⟩ := exists_of_mem_modify hd'
    · exact .inl hd
    · obtain rfl := Option.some.inj (hi.symm.trans hc)
      exact .inr rfl
  have hmem := List.mem_of_getElem? hc
  have hlater : ∀ {key rows before before'}, before' ≤ before ∨ s.clock ≤ before →
      Seen root history s key rows before →
      Seen root history { s.tick.setLoad i phase with cache := cache } key rows before' := by
    intro key rows before before' hle hseen
    refine hseen.mono (Nat.le_succ _) fun m hm _ t ht hlt => ⟨?_, hm⟩
    have := ((h.times m hm).2 t ht).1
    omega
  refine ⟨hnow, fun d hd => ?_, fun m hm => ?_, fun key hkey rows hrows => ?_,
    fun d hd readAt rows hphase => ?_, fun d hd time rows hphase => ?_⟩
  · rcases hloads d hd with hd | rfl
    · exact ⟨(h.loaded d hd).1, Nat.lt_succ_of_lt (h.loaded d hd).2⟩
    · exact ⟨(h.loaded c hmem).1, Nat.lt_succ_of_lt (h.loaded c hmem).2⟩
  · exact ⟨fun r hr => Nat.lt_succ_of_lt ((h.times m hm).1 r hr), fun t ht =>
      ⟨Nat.lt_succ_of_lt ((h.times m hm).2 t ht).1, ((h.times m hm).2 t ht).2⟩⟩
  · exact hlater (.inr le_rfl) (hcache key hkey rows hrows)
  · rcases hloads d hd with hd | rfl
    · obtain ⟨hstart, hle, hrows⟩ := h.reads d hd readAt rows hphase
      exact ⟨hstart, Nat.le_succ_of_le hle, hrows⟩
    · obtain ⟨rfl, rfl⟩ := hread readAt rows hphase
      refine ⟨(h.loaded c hmem).2, Nat.le_succ _, ?_⟩
      rw [h.now]
  · rcases hloads d hd with hd | rfl
    · exact hlater (.inl le_rfl) (h.served d hd time rows hphase)
    · exact hlater (.inl le_rfl) (hserved time rows hphase)

/-- A step of a merge or a cleanup: it drops the entries of a merge that returns. -/
theorem Traced.stepOther {s' : BarStore F} {history : History F} (h : Traced root keys history s)
    (hnow : history (s.clock + 1) = s'.contents) (hclock : s'.clock = s.clock + 1)
    (hloads : s'.loads = s.loads)
    (hmerges : ∀ m' ∈ s'.merges, m' ∈ s.merges ∨
      (m'.returnedAt = none ∧ ∀ r ∈ m'.replacedAt, r ≤ s.clock) ∨
      m'.returnedAt = some s.clock ∧ s'.cache m'.key.cacheKey = none ∧ ∀ r ∈ m'.replacedAt, r < s.clock)
    (hcache : ∀ key rows, s'.cache key = some rows → s.cache key = some rows) :
    Traced root keys history s' := by
  refine ⟨by rw [hclock]; exact hnow, fun c hc => ?_, fun m hm => ?_, fun key hkey rows hrows => ?_,
    fun c hc readAt rows hphase => ?_, fun c hc time rows hphase => ?_⟩
  · rw [hloads] at hc
    exact ⟨(h.loaded c hc).1, by rw [hclock]; exact Nat.lt_succ_of_lt (h.loaded c hc).2⟩
  · rw [hclock]
    rcases hmerges m hm with hm | ⟨hflight, hreplaced⟩ | ⟨hreturned, -, hreplaced⟩
    · exact ⟨fun r hr => Nat.lt_succ_of_lt ((h.times m hm).1 r hr), fun t ht =>
        ⟨Nat.lt_succ_of_lt ((h.times m hm).2 t ht).1, ((h.times m hm).2 t ht).2⟩⟩
    · refine ⟨fun r hr => Nat.lt_succ_of_le (hreplaced r hr), fun t ht => ?_⟩
      rw [hflight] at ht
      simp at ht
    · refine ⟨fun r hr => Nat.lt_succ_of_lt (hreplaced r hr), fun t ht => ?_⟩
      rw [hreturned] at ht
      obtain rfl := Option.some.inj ht
      exact ⟨Nat.lt_succ_self _, hreplaced⟩
  · refine (h.entries key hkey rows (hcache _ _ hrows)).mono (by omega) fun m hm hmkey t ht _ => ?_
    rcases hmerges m hm with hm | ⟨hflight, -⟩ | ⟨-, hdropped, -⟩
    · exact ⟨((h.times m hm).2 t ht).1, hm⟩
    · rw [hflight] at ht
      simp at ht
    · rw [hmkey, hrows] at hdropped
      simp at hdropped
  · rw [hloads] at hc
    obtain ⟨hstart, hle, hrows⟩ := h.reads c hc readAt rows hphase
    exact ⟨hstart, by omega, hrows⟩
  · rw [hloads] at hc
    refine (h.served c hc time rows hphase).mono (by omega) fun m hm _ t ht hlt => ?_
    rcases hmerges m hm with hm | ⟨hflight, -⟩ | ⟨hreturned, -, -⟩
    · exact ⟨hlt, hm⟩
    · rw [hflight] at ht
      simp at ht
    · -- a merge that returns now returns after the start of every load
      rw [hreturned] at ht
      obtain rfl := Option.some.inj ht
      have := (h.loaded c hc).2
      omega

/-- A load starts. -/
theorem Traced.startLoad {history : History F} (h : Traced root keys history s) {key : BarKey}
    (hkey : key ∈ keys) (hnow : history (s.clock + 1) = s.contents) :
    Traced root keys history
      { s.tick with loads := s.loads ++ [{ key := key, startedAt := s.clock }] } := by
  have hidle : Traced root keys history s.tick :=
    h.stepOther hnow rfl rfl (fun m hm => .inl hm) fun _ _ hrows => hrows
  refine ⟨hnow, fun c hc => ?_, hidle.times, hidle.entries, fun c hc readAt rows hphase => ?_,
    fun c hc time rows hphase => ?_⟩
  · rcases List.mem_append.1 hc with hc | hc
    · exact hidle.loaded c hc
    · rw [List.mem_singleton.1 hc]
      exact ⟨hkey, Nat.lt_succ_self _⟩
  · rcases List.mem_append.1 hc with hc | hc
    · exact hidle.reads c hc readAt rows hphase
    · rw [List.mem_singleton.1 hc] at hphase
      simp at hphase
  · rcases List.mem_append.1 hc with hc | hc
    · exact hidle.served c hc time rows hphase
    · rw [List.mem_singleton.1 hc] at hphase
      simp at hphase

theorem Traced.step {history : History F} (hcached : CachedApart keys) (h : Traced root keys history s)
    (huses : Uses keys move) (hmove : Undisturbed root s move)
    (hnow : history (s.clock + 1) = (s.step root move).contents) :
    Traced root keys history (s.step root move) := by
  have hdoes := step_does root s move
  generalize s.step root move = s' at hdoes hnow ⊢
  cases hdoes with
  | nothing => exact h.stepOther hnow rfl rfl (fun m hm => .inl hm) fun _ _ hrows => hrows
  | load key => exact h.startLoad huses hnow
  | hit i evicted c rows hc hphase hcache =>
    refine h.stepLoad hnow hc h.entries (fun _ _ hr => by simp at hr) fun time r hr => ?_
    obtain ⟨-, rfl⟩ := LoadPhase.returned.inj hr
    have hmem := List.mem_of_getElem? hc
    have hstart := (h.loaded c hmem).2
    exact (h.entries c.key (h.loaded c hmem).1 rows hcache).mono le_rfl fun m hm _ t _ hlt =>
      ⟨by omega, hm⟩
  | miss i evicted c hc hphase =>
    exact h.stepLoad hnow hc h.entries (fun _ _ hr => by simp at hr) fun _ _ hr => by simp at hr
  | readLoad i evicted c hc hphase =>
    refine h.stepLoad hnow hc h.entries (fun readAt r hr => ?_) fun _ _ hr => by simp at hr
    obtain ⟨rfl, rfl⟩ := LoadPhase.insert.inj hr
    exact ⟨rfl, rfl⟩
  | insert i evicted c readAt rows hc hphase =>
    have hmem := List.mem_of_getElem? hc
    obtain ⟨hstart, hle, hrows⟩ := h.reads c hmem readAt rows hphase
    have hself : Seen root history s c.key rows s.clock := by
      refine ⟨readAt, hle, hrows, fun m hm hkey t ht _ r hr => ?_⟩
      exact (hmove c hc readAt (by simp [BarLoad.readAt, hphase])).1 m hm hkey
        (by rw [Option.mem_def.1 ht]; simp) r hr
    have hs' : ((s.tick.evict evicted).setCache c.key.cacheKey (some rows)).setLoad i
        (.returned s.clock rows) = { s.tick.setLoad i (.returned s.clock rows) with
          cache := ((s.tick.evict evicted).setCache c.key.cacheKey (some rows)).cache } := by
      cases evicted <;> rfl
    rw [hs'] at hnow ⊢
    refine h.stepLoad hnow hc (fun key hkey r hr => ?_) (fun _ _ hr => by simp at hr) fun time r hr => ?_
    · by_cases hsame : key.cacheKey = c.key.cacheKey
      · obtain rfl := hcached key hkey c.key (h.loaded c hmem).1 hsame
        have hr' : some rows = some r := by
          rw [← hr]
          unfold BarStore.setCache
          simp
        obtain rfl := Option.some.inj hr'
        exact hself
      · have hold : (s.tick.evict evicted).cache key.cacheKey = some r := by
          rw [← hr]
          unfold BarStore.setCache
          simp [hsame]
        exact h.entries key hkey r (evict_cache hold)
    · obtain ⟨-, rfl⟩ := LoadPhase.returned.inj hr
      exact hself.mono le_rfl fun m hm _ t _ hlt => ⟨by omega, hm⟩
  | merge key newBars =>
    refine h.stepOther hnow rfl rfl (fun m hm => ?_) fun _ _ hrows => hrows
    rcases List.mem_append.1 hm with hm | hm
    · exact .inl hm
    · rw [List.mem_singleton.1 hm]
      exact .inr (.inl ⟨rfl, fun r hr => by simp [BarMerge.replacedAt] at hr⟩)
  | readMerge i c hc hphase =>
    refine h.stepOther hnow rfl rfl (fun m hm => ?_) fun _ _ hrows => hrows
    obtain ⟨d, hd, rfl | ⟨-, rfl⟩⟩ := exists_of_mem_modify hm
    · exact .inl hd
    · exact .inr (.inl ⟨rfl, fun r hr => by simp [BarMerge.replacedAt] at hr⟩)
  | replace i c loaded hc hphase =>
    refine h.stepOther hnow rfl rfl (fun m hm => ?_) fun _ _ hrows => hrows
    obtain ⟨d, hd, rfl | ⟨-, rfl⟩⟩ := exists_of_mem_modify hm
    · exact .inl hd
    · refine .inr (.inl ⟨rfl, fun r hr => ?_⟩)
      obtain rfl : s.clock = r := by simpa [BarMerge.replacedAt] using hr
      exact le_rfl
  | invalidate i c replacedAt count hc hphase =>
    refine h.stepOther hnow rfl rfl (fun m hm => ?_) fun key rows hrows => ?_
    · obtain ⟨d, hd, rfl | ⟨hi, rfl⟩⟩ := exists_of_mem_modify hm
      · exact .inl hd
      · obtain rfl := Option.some.inj (hi.symm.trans hc)
        refine .inr (.inr ⟨rfl, ?_, fun r hr => ?_⟩)
        · unfold BarStore.setCache setMerge
          simp
        · have hr' : r ∈ d.replacedAt := by simpa [BarMerge.replacedAt, hphase] using hr
          exact (h.times d (List.mem_of_getElem? hc)).1 r hr'
    · by_cases hsame : key = c.key.cacheKey
      · have hnone : ((s.tick.setCache c.key.cacheKey none).setMerge i
            (.returned replacedAt s.clock count)).cache key = none := by
          unfold BarStore.setCache setMerge
          simp [hsame]
        rw [hnone] at hrows
        simp at hrows
      · rw [← hrows]
        unfold BarStore.setCache setMerge
        simp [hsame, BarStore.tick]
  | cleanup => exact h.stepOther hnow rfl rfl (fun m hm => .inl hm) fun _ _ hrows => hrows
  | remove i path c hc hflight =>
    exact h.stepOther hnow rfl rfl (fun m hm => .inl hm) fun _ _ hrows => hrows
  | clear i c hc hflight =>
    exact h.stepOther hnow rfl rfl (fun m hm => .inl hm) fun _ _ hrows => by simp [setCleanup] at hrows

/-! ## Runs -/

/-- No call is in flight. -/
def Quiet (s : BarStore F) : Prop :=
  (∀ c ∈ s.loads, ∃ time rows, c.phase = .returned time rows) ∧
    (∀ m ∈ s.merges, m.returnedAt ≠ none) ∧ ∀ k ∈ s.cleanups, k.returned = true

/-- **A coherent cache.** -/
structure Coherent (root : List String) (keys : List BarKey) (moves : List (BarMove F)) : Prop where
  /-- What a load returns is what the file held at a time after each merge of its key that had
  returned when the load started. -/
  sees : ∀ c ∈ (Run.run (step root) {} moves).loads, ∀ time rows, c.phase = .returned time rows →
    ∀ m ∈ (Run.run (step root) {} moves).merges, m.key = c.key → ∀ t ∈ m.returnedAt,
      t < c.startedAt → ∀ r ∈ m.replacedAt, ∃ τ ≤ moves.length, r < τ ∧
        rows = (Run.run (step root) {} (moves.take τ)).contents (barPath root c.key)
  /-- When no call is in flight, what is cached is what is stored. -/
  quiet : Quiet (Run.run (step root) {} moves) → ∀ key ∈ keys, ∀ rows,
    (Run.run (step root) {} moves).cache key.cacheKey = some rows →
      rows = (Run.run (step root) {} moves).contents (barPath root key)

theorem Cached.quiet (h : Cached root keys s) (hquiet : Quiet s) {key : BarKey} (hkey : key ∈ keys)
    {rows : List (BarRow F)} (hrows : s.cache key.cacheKey = some rows) :
    rows = s.contents (barPath root key) := by
  rcases h.entries key hkey rows hrows with hsame | ⟨m, hm, -, -, hflight⟩ | ⟨k, hk, hflight⟩
  · exact hsame
  · exact absurd hflight (hquiet.2.1 m hm)
  · rw [hquiet.2.2 k hk] at hflight
    simp at hflight

/-- **The cache is coherent** in every interleaving of loads, merges and cleanups of separate keys
whose loads are undisturbed. -/
theorem coherent_undisturbed (root : List String) (keys : List BarKey) (hfiles : Separate root keys)
    (hcached : CachedApart keys) (moves : List (BarMove F)) (huses : ∀ move ∈ moves, Uses keys move)
    (hundisturbed : Run.Along (step root) (Undisturbed root) {} moves) :
    Coherent root keys moves := by
  have halong := hundisturbed.and huses
  refine ⟨fun c hc time rows hphase m hm hkey t ht hlt r hr => ?_, fun hquiet key hkey rows hrows => ?_⟩
  · -- the states of the prefixes are the history
    let history : History F := fun τ => (Run.run (step root) {} (moves.take τ)).contents
    have htraced : ∀ n ≤ moves.length, (Run.run (step root) {} (moves.take n)).clock = n ∧
        Traced root keys history (Run.run (step root) {} (moves.take n)) := by
      refine Run.along_prefix (P := fun n s => s.clock = n ∧ Traced root keys history s) ?_ ?_ halong
      · refine ⟨rfl, rfl, ?_, ?_, ?_, ?_, ?_⟩ <;> simp
      · intro n move hmove hok hprefix
        obtain ⟨hclock, hs⟩ := hprefix
        have hnext : Run.run (step root) ({} : BarStore F) (moves.take (n + 1)) =
            (Run.run (step root) {} (moves.take n)).step root move := Run.run_take_succ hmove
        have hnow : history (n + 1) = ((Run.run (step root) {} (moves.take n)).step root move).contents :=
          congrArg BarStore.contents hnext
        rw [hnext]
        refine ⟨congrArg (· + 1) hclock, hs.step hcached hok.2 hok.1 ?_⟩
        rw [hclock]
        exact hnow
    obtain ⟨hclock, hend⟩ := htraced moves.length le_rfl
    rw [List.take_length] at hclock hend
    obtain ⟨τ, hτ, hrows, hlate⟩ := hend.served c hc time rows hphase
    exact ⟨τ, by omega, hlate m hm hkey t ht hlt r hr, hrows⟩
  · have hend : Cached root keys (Run.run (step root) {} moves) := by
      have hempty : Cached root keys ({} : BarStore F) := ⟨by simp, by simp, by simp, by simp⟩
      exact Run.run_invariant_along (I := Cached root keys)
        (fun s move hok hs => hs.step hfiles hcached hok.2 hok.1) moves _ halong hempty
    exact hend.quiet hquiet hkey hrows

/-- A load that reads before a merge replaces the file, and fills the cache while the merge is still
in flight; and one that starts when it has returned. -/
theorem overlapped_coherent : Coherent ["data", "timeseries"] [fixtureKey]
    ([.load fixtureKey, .merge fixtureKey [fixtureBar 1 10], .stepLoad 0 none, .stepLoad 0 none,
      .stepMerge 0, .stepMerge 0, .stepLoad 0 none, .stepMerge 0, .load fixtureKey, .stepLoad 1 none,
      .stepLoad 1 none, .stepLoad 1 none] : List (BarMove ℕ)) :=
  coherent_undisturbed _ _ (by decide) (by decide) _ (by decide)
    (by decide)

/-- **A load that is overtaken**: it reads the file, a merge replaces it, drops the entry and
returns, and then the load caches what it read. -/
theorem overtaken_stale : ¬ ∀ (root : List String) (keys : List BarKey) (moves : List (BarMove ℕ)),
    (∀ move ∈ moves, Uses keys move) → Coherent root keys moves := by
  intro h
  let moves : List (BarMove ℕ) := [.load fixtureKey, .stepLoad 0 none, .stepLoad 0 none,
    .merge fixtureKey [fixtureBar 1 10], .stepMerge 0, .stepMerge 0, .stepMerge 0, .stepLoad 0 none]
  have hquiet := (h ["data", "timeseries"] [fixtureKey] moves (by decide)).quiet
  have hstale := hquiet ⟨by
    intro c hc
    have hloads : (Run.run (step ["data", "timeseries"]) {} moves).loads =
        [⟨fixtureKey, 0, .returned 7 []⟩] := by decide
    rw [hloads, List.mem_singleton] at hc
    exact ⟨7, [], by rw [hc]⟩, by decide, by decide⟩ fixtureKey (by decide) []
    (by decide)
  exact absurd hstale (by decide)

end BarStore

end Astock
