import Astock.Proof.EventLog

/-!
# The effect table of the Agent store

* `EffectsOK`: in every reachable store (`reachable_effectsOK`) effect ids and
  idempotency keys are unique, and a row is pending without a result or finished
  with one.
* `EffectRow.Later`: what a run does to a row: its intent never changes, and a
  finished row never changes at all.
* `effectLifecycle_run`: **the life of an effect, over every run**, with what
  repeated and conflicting completions are answered.
* `effectIdentity_iff`: **when `begin_effect` refuses everything but a replay.** A
  matching row that differs in `caused_by_seq` or in the key is accepted.
-/

namespace Astock

open Prog

variable {P : Platform} {s s' : EngineStore} {now : ℤ}

/-! ## The invariant -/

/-- A row is pending without a result, or finished with one. -/
def EffectRow.Lifecycle (row : EffectRow) : Prop :=
  (row.status = "pending" ∧ row.resultJson = none) ∨
    (TerminalStatus row.status ∧ ∃ result, row.resultJson = some result)

/-- What `begin_effect` checked before it stored a row. -/
def EffectRow.Checked (row : EffectRow) : Prop :=
  ValidIdentity row.effectId ∧ ValidIdentity row.taskId ∧ ValidIdentity row.effectKind ∧
    row.effectJson.textLen ≤ maxFrameBytes

/-- **The invariant of the effect table.** -/
structure EffectsOK (s : EngineStore) : Prop where
  effectIds : (s.effects.map (·.effectId)).Nodup
  keys : (s.effects.map (·.idempotencyKey)).Nodup
  lifecycle : ∀ row ∈ s.effects, row.Lifecycle
  checked : ∀ row ∈ s.effects, row.Checked

theorem EffectsOK.init : EffectsOK {} :=
  ⟨List.nodup_nil, List.nodup_nil, by simp, by simp⟩

theorem EffectsOK.congr (h : EffectsOK s) (he : s'.effects = s.effects) : EffectsOK s' :=
  ⟨he ▸ h.effectIds, he ▸ h.keys, he ▸ h.lifecycle, he ▸ h.checked⟩

/-- The row `begin_effect` reads has the effect id or the key of the call. -/
theorem found_mem {input : BeginEffect} {row : EffectRow} (h : input.found P s = some row) :
    row ∈ s.effects ∧ (row.effectId = input.effectId ∨
      row.idempotencyKey = idempotencyDigest P input.idempotencyKey) := by
  have hmem := (P.visit_perm _).subset (List.mem_of_mem_head? h)
  simpa [EngineStore.effectsMatching] using hmem

/-- `begin_effect` reads no row only where the effect id and the key are free. -/
theorem found_eq_none {input : BeginEffect} (h : input.found P s = none) :
    ∀ row ∈ s.effects, row.effectId ≠ input.effectId ∧
      row.idempotencyKey ≠ idempotencyDigest P input.idempotencyKey := by
  have hnil := List.head?_eq_none_iff.1 h
  have hperm := P.visit_perm (s.effectsMatching input.effectId (idempotencyDigest P input.idempotencyKey))
  rw [hnil] at hperm
  have hempty := hperm.symm.eq_nil
  intro row hrow
  have hnot := List.filter_eq_nil_iff.1 hempty row hrow
  simpa [not_or] using hnot

theorem EffectsOK.begin (h : EffectsOK s) {input : BeginEffect} (hvalid : input.Valid)
    (hnone : input.found P s = none) :
    EffectsOK (s.addEffect (input.row now (idempotencyDigest P input.idempotencyKey))) := by
  have hfree := found_eq_none hnone
  -- a column without the new value stays without duplicates
  have hcol : ∀ (f : EffectRow → String) (x : EffectRow), (s.effects.map f).Nodup →
      (∀ row ∈ s.effects, f row ≠ f x) → ((s.effects ++ [x]).map f).Nodup := by
    intro f x hd hne
    rw [List.map_append]
    refine List.nodup_append.2 ⟨hd, List.nodup_singleton _, ?_⟩
    intro a ha b hb
    obtain ⟨row, hrow, rfl⟩ := List.mem_map.1 ha
    rw [List.mem_singleton.1 hb]
    exact hne row hrow
  refine ⟨hcol _ _ h.effectIds fun row hrow => (hfree row hrow).1,
    hcol _ _ h.keys fun row hrow => (hfree row hrow).2, fun row hrow => ?_, fun row hrow => ?_⟩
  · rcases List.mem_append.1 hrow with hrow | hrow
    · exact h.lifecycle row hrow
    · obtain rfl := List.mem_singleton.1 hrow; exact .inl ⟨rfl, rfl⟩
  · rcases List.mem_append.1 hrow with hrow | hrow
    · exact h.checked row hrow
    · obtain rfl := List.mem_singleton.1 hrow
      exact ⟨hvalid.effectId, hvalid.taskId, hvalid.effectKind, hvalid.effect⟩

theorem EffectsOK.finish (h : EffectsOK s) {input : CompleteEffect} (hvalid : input.Valid) :
    EffectsOK (s.updateEffect input.effectId (·.finish now input)) := by
  have hids : (s.updateEffect input.effectId (·.finish now input)).effects.map (·.effectId)
      = s.effects.map (·.effectId) := Table.map_key_update EffectRow.effectId fun _ => rfl
  have hkeys : (s.updateEffect input.effectId (·.finish now input)).effects.map (·.idempotencyKey)
      = s.effects.map (·.idempotencyKey) := by
    simp only [EngineStore.updateEffect, Table.update, List.map_map]
    refine List.map_congr_left fun row _ => ?_
    simp only [Function.comp_apply]
    split <;> rfl
  refine ⟨hids ▸ h.effectIds, hkeys ▸ h.keys, fun row hrow => ?_, fun row hrow => ?_⟩
  · obtain ⟨r₀, hr₀, ⟨-, rfl⟩ | ⟨-, rfl⟩⟩ := Table.mem_update hrow
    · exact .inr ⟨hvalid.status, input.result, rfl⟩
    · exact h.lifecycle _ hr₀
  · obtain ⟨r₀, hr₀, ⟨-, rfl⟩ | ⟨-, rfl⟩⟩ := Table.mem_update hrow
    · exact h.checked r₀ hr₀
    · exact h.checked _ hr₀

/-- **Every step keeps the invariant.** -/
theorem EffectsOK.step (h : EffectsOK s) (hstep : StoreStep P s s') : EffectsOK s' := by
  cases hstep with
  | same hsame => exact h.congr hsame.2.2
  | create now input _ _ => exact h.congr rfl
  | append now input _ _ _ _ _ => exact h.congr rfl
  | accept now input row _ _ _ => exact h.congr rfl
  | begin now input hvalid hnone _ => exact h.begin hvalid hnone
  | finish now input row hvalid _ _ => exact h.finish hvalid

theorem afterAll_effectsOK (h : EffectsOK s) (cs : List StoreCall) : EffectsOK (s.afterAll P cs) :=
  Run.run_invariant (fun s c h => EffectsOK.step h (after_step s c)) cs s h

theorem reachable_effectsOK (h : EngineStore.Reachable P s) : EffectsOK s := by
  obtain ⟨cs, rfl⟩ := h
  exact afterAll_effectsOK EffectsOK.init cs

/-! ## The life of a row -/

/-- A row later on: the same intent, and once finished, the same row. -/
structure EffectRow.Later (row row' : EffectRow) : Prop where
  effectId : row'.effectId = row.effectId
  taskId : row'.taskId = row.taskId
  causedBySeq : row'.causedBySeq = row.causedBySeq
  effectKind : row'.effectKind = row.effectKind
  effectJson : row'.effectJson = row.effectJson
  idempotencyKey : row'.idempotencyKey = row.idempotencyKey
  settled : row.status ≠ "pending" → row' = row

theorem EffectRow.Later.refl (row : EffectRow) : row.Later row :=
  ⟨rfl, rfl, rfl, rfl, rfl, rfl, fun _ => rfl⟩

theorem EffectRow.Later.trans (a b c : EffectRow) (h₁ : a.Later b) (h₂ : b.Later c) : a.Later c where
  effectId := h₂.effectId.trans h₁.effectId
  taskId := h₂.taskId.trans h₁.taskId
  causedBySeq := h₂.causedBySeq.trans h₁.causedBySeq
  effectKind := h₂.effectKind.trans h₁.effectKind
  effectJson := h₂.effectJson.trans h₁.effectJson
  idempotencyKey := h₂.idempotencyKey.trans h₁.idempotencyKey
  settled := by
    intro ha
    obtain rfl := h₁.settled ha
    exact h₂.settled ha

/-- Rows of effects are never lost, and each moves on in its life. -/
abbrev EffectsExt (s s' : EngineStore) : Prop :=
  Table.Grows EffectRow.effectId EffectRow.Later s.effects s'.effects

theorem StoreStep.effectsExt (hstep : StoreStep P s s') : EffectsExt s s' := by
  have hrefl : EffectsExt s s := Table.Grows.refl EffectRow.Later.refl _
  cases hstep with
  | same hsame => rw [EffectsExt, hsame.2.2]; exact hrefl
  | create now input _ _ => exact hrefl
  | append now input _ _ _ _ _ => exact hrefl
  | accept now input row _ _ _ => exact hrefl
  | begin now input _ _ _ => exact Table.Grows.insert EffectRow.Later.refl _ _
  | finish now input row _ hrow hpend =>
    refine Table.Grows.update EffectRow.Later.refl (fun _ => rfl) fun r hr => ?_
    obtain rfl := Option.some.inj (hr.symm.trans hrow)
    exact ⟨rfl, rfl, rfl, rfl, rfl, rfl, fun hne => absurd hpend hne⟩

theorem afterAll_effectsExt (s : EngineStore) (cs : List StoreCall) :
    EffectsExt s (s.afterAll P cs) :=
  Run.run_rel (R := EffectsExt) (I := fun _ => True) (fun _ => Table.Grows.refl EffectRow.Later.refl _)
    (fun _ _ _ => Table.Grows.trans EffectRow.Later.trans) (fun _ _ _ => trivial)
    (fun s c _ => (after_step s c).effectsExt) cs s trivial

/-- A row that a call adds is pending and has no result. -/
theorem StoreStep.fresh_pending (hstep : StoreStep P s s') {row : EffectRow} (hrow : row ∈ s'.effects)
    (hnew : s.effectOf row.effectId = none) : row.status = "pending" ∧ row.resultJson = none := by
  have hold : ∀ r ∈ s.effects, r.effectId ≠ row.effectId :=
    (Table.find_eq_none EffectRow.effectId).1 hnew
  have hno : row ∉ s.effects := fun h => hold row h rfl
  cases hstep with
  | same hsame => exact absurd (hsame.2.2 ▸ hrow) hno
  | create now input _ _ => exact absurd hrow hno
  | append now input _ _ _ _ _ => exact absurd hrow hno
  | accept now input row _ _ _ => exact absurd hrow hno
  | begin now input _ _ _ =>
    rcases List.mem_append.1 hrow with hrow | hrow
    · exact absurd hrow hno
    · obtain rfl := List.mem_singleton.1 hrow; exact ⟨rfl, rfl⟩
  | finish now input _ _ _ _ =>
    obtain ⟨r₀, hr₀, ⟨-, rfl⟩ | ⟨-, rfl⟩⟩ := Table.mem_update hrow
    · exact absurd rfl (hold r₀ hr₀)
    · exact absurd hr₀ hno

/-! ## Completions -/

/-- The effect is finished with the status and the result of the call. -/
def CompleteEffect.Settled (input : CompleteEffect) (s : EngineStore) : Prop :=
  input.Valid ∧ ∃ row, s.effectOf input.effectId = some row ∧ row.status ≠ "pending" ∧
    input.Matches row

/-- A completion answered with `Ok` has finished the effect as asked. -/
theorem completeEffect_settled {input : CompleteEffect}
    (h : (exec (completeEffect now input) s).1 = .ok ()) :
    input.Settled (s.after P (.completeEffect now input)) := by
  have hspec := (completeEffect_spec now input).ok rfl (Prod.ext h rfl)
  obtain ⟨hvalid, row, hrow, ⟨-, hs'⟩ | ⟨hdone, hsame, hs'⟩⟩ := hspec
  · refine ⟨hvalid, row.finish now input, ?_, hvalid.status.ne_pending, rfl, rfl⟩
    have hafter : s.after P (.completeEffect now input)
        = s.updateEffect input.effectId (·.finish now input) := hs'
    have hfind : (s.updateEffect input.effectId (·.finish now input)).effectOf input.effectId
        = (s.effectOf input.effectId).map (·.finish now input) :=
      Table.find_update_self fun _ => rfl
    rw [hafter, hfind, hrow]; rfl
  · refine ⟨hvalid, row, ?_, hdone, hsame⟩
    have hafter : s.after P (.completeEffect now input) = s := hs'
    rw [hafter, hrow]

/-- What is finished stays finished, whatever is called. -/
theorem CompleteEffect.Settled.afterAll {input : CompleteEffect} (h : input.Settled s)
    (cs : List StoreCall) : input.Settled (s.afterAll P cs) := by
  obtain ⟨hvalid, row, hrow, hdone, hsame⟩ := h
  obtain ⟨row', hrow', hlater⟩ := afterAll_effectsExt (P := P) s cs _ row hrow
  obtain rfl := hlater.settled hdone
  exact ⟨hvalid, row', hrow', hdone, hsame⟩

/-- The same completion again changes nothing. -/
theorem CompleteEffect.Settled.repeat {input : CompleteEffect} (h : input.Settled s) :
    exec (completeEffect now input) s = (.ok (), s) := by
  obtain ⟨hvalid, row, hrow, hdone, hsame⟩ := h
  have hspec := completeEffect_spec now input s rfl
  rcases hr : exec (completeEffect now input) s with ⟨e | u, s'⟩
  · rw [hr] at hspec
    exact absurd hsame (hspec.1.2 hvalid row hrow).2
  · rw [hr] at hspec
    obtain ⟨-, row', hrow', ⟨hpend, -⟩ | ⟨-, -, rfl⟩⟩ := hspec
    · obtain rfl := Option.some.inj (hrow.symm.trans hrow')
      exact absurd hpend hdone
    · rfl

/-- Another completion is refused unless it is the same. -/
theorem CompleteEffect.Settled.agree {input other : CompleteEffect} (h : input.Settled s)
    (hid : other.effectId = input.effectId)
    (hok : (exec (completeEffect now other) s).1 = .ok ()) :
    other.status = input.status ∧ other.result = input.result := by
  obtain ⟨-, row, hrow, hdone, hst, hres⟩ := h
  have hspec := (completeEffect_spec now other).ok rfl (Prod.ext hok rfl)
  obtain ⟨-, row', hrow', ⟨hpend, -⟩ | ⟨-, ⟨hst', hres'⟩, -⟩⟩ := hspec
  · rw [hid, hrow] at hrow'
    obtain rfl := Option.some.inj hrow'
    exact absurd hpend hdone
  · rw [hid, hrow] at hrow'
    obtain rfl := Option.some.inj hrow'
    rw [hst] at hst'
    rw [hres] at hres'
    exact ⟨hst'.symm, (Option.some.inj hres').symm⟩

/-- **The life of an effect, over every run.** In every reachable store rows have
unique ids and are pending without a result or finished with one; a row appears
pending; its intent never changes, and once finished nothing of it does; after a
completion answered with `Ok`, whatever follows, the same completion is answered
with `Ok` and changes nothing, and no other completion of that effect is. -/
theorem effectLifecycle_run (P : Platform) (cs : List StoreCall) :
    EffectsOK (EngineStore.afterAll P {} cs) ∧
      (∀ c, ∀ row ∈ ((EngineStore.afterAll P {} cs).after P c).effects,
        (EngineStore.afterAll P {} cs).effectOf row.effectId = none →
        row.status = "pending" ∧ row.resultJson = none) ∧
      (∀ cs', EffectsExt (EngineStore.afterAll P {} cs) (EngineStore.afterAll P {} (cs ++ cs'))) ∧
      ∀ now input cs', (exec (completeEffect now input) (EngineStore.afterAll P {} cs)).1 = .ok () →
        let later := EngineStore.afterAll P {} (cs ++ .completeEffect now input :: cs')
        (∀ now', exec (completeEffect now' input) later = (.ok (), later)) ∧
          ∀ now' other, other.effectId = input.effectId →
            (exec (completeEffect now' other) later).1 = .ok () →
            other.status = input.status ∧ other.result = input.result := by
  refine ⟨afterAll_effectsOK EffectsOK.init cs,
    fun c row hrow hnew => (after_step _ c).fresh_pending hrow hnew, fun cs' => ?_,
    fun now input cs' hok => ?_⟩
  · have happ : EngineStore.afterAll P {} (cs ++ cs')
        = (EngineStore.afterAll P {} cs).afterAll P cs' := Run.run_append _ _ _
    rw [happ]
    exact afterAll_effectsExt _ cs'
  · intro later
    have happ : later = ((EngineStore.afterAll P {} cs).after P (.completeEffect now input)).afterAll P cs' :=
      Run.run_append _ _ _
    have hsettled : input.Settled later := by
      rw [happ]; exact (completeEffect_settled hok).afterAll cs'
    exact ⟨fun now' => hsettled.repeat, fun now' other hid h => hsettled.agree hid h⟩

/-! ## Identity -/

/-- The row agrees with the call in every field the call submits. -/
def BeginEffect.Agrees (P : Platform) (input : BeginEffect) (row : EffectRow) : Prop :=
  input.Matches row ∧ row.causedBySeq = input.causedBySeq ∧
    row.idempotencyKey = idempotencyDigest P input.idempotencyKey

/-- The row holds the effect id or the key of the call. -/
def BeginEffect.Bound (P : Platform) (input : BeginEffect) (row : EffectRow) : Prop :=
  row.effectId = input.effectId ∨ row.idempotencyKey = idempotencyDigest P input.idempotencyKey

/-- **An honest answer** to `begin_effect`: `Ok(false)` only for a row that agrees
in every field, and a refusal that changes nothing where the id or the key belongs
to a row that does not. -/
structure HonestBegin (P : Platform) (s : EngineStore) (now : ℤ) (input : BeginEffect) : Prop where
  replay : (exec (beginEffect P now input) s).1 = .ok false → ∃ row ∈ s.effects, input.Agrees P row
  refuse : ∀ row ∈ s.effects, input.Bound P row → ¬ input.Agrees P row →
    ∃ e, exec (beginEffect P now input) s = (.error e, s)

/-- The row `begin_effect` reads matches what it compares, but the key or the
sequence number that caused the effect is another one. -/
def OriginDiffers (P : Platform) (s : EngineStore) (input : BeginEffect) : Prop :=
  input.Valid ∧ ∃ row, input.found P s = some row ∧ input.Matches row ∧ ¬ input.Agrees P row

/-- **When effects keep their identity.** In every reachable store the answer of
`begin_effect` is honest exactly when the row it reads does not differ in
`caused_by_seq` or in the key alone. -/
theorem effectIdentity_iff (P : Platform) (s : EngineStore) (h : EngineStore.Reachable P s) (now : ℤ)
    (input : BeginEffect) : HonestBegin P s now input ↔ ¬ OriginDiffers P s input := by
  have hs := reachable_effectsOK h
  have hspec := beginEffect_spec (P := P) now input s rfl
  constructor
  · rintro ⟨-, hrefuse⟩ ⟨hvalid, row, hfound, hmatch, hdiff⟩
    obtain ⟨hrow, hbound⟩ := found_mem hfound
    obtain ⟨e, he⟩ := hrefuse row hrow hbound hdiff
    rw [he] at hspec
    exact hspec.1.2 hvalid row hfound hmatch
  · intro hno
    rcases hr : exec (beginEffect P now input) s with ⟨e | inserted, s'⟩
    · -- an error is always honest
      rw [hr] at hspec
      obtain ⟨-, rfl⟩ := hspec
      constructor
      · intro hok; rw [hr] at hok; simp at hok
      · intro row _ _ _; exact ⟨e, hr⟩
    · rw [hr] at hspec
      obtain ⟨hvalid, hcase⟩ := hspec
      cases inserted with
      | true =>
        have hfree := found_eq_none hcase.1
        constructor
        · intro hok; rw [hr] at hok; simp at hok
        · intro row hrow hbound _
          rcases hbound with hb | hb
          · exact absurd hb (hfree row hrow).1
          · exact absurd hb (hfree row hrow).2
      | false =>
        obtain ⟨-, row, hfound, hmatch⟩ := hcase
        have hrow := (found_mem hfound).1
        have hagree : input.Agrees P row := by
          by_contra hdiff
          exact hno ⟨hvalid, row, hfound, hmatch, hdiff⟩
        refine ⟨fun _ => ⟨row, hrow, hagree⟩, fun row' hrow' hbound hdiff => ?_⟩
        -- ids and keys are unique, so the row bound to the call is the row it found
        have hsame : row' = row := by
          rcases hbound with hb | hb
          · exact List.inj_on_of_nodup_map hs.effectIds hrow' hrow (hb.trans hagree.1.1.symm)
          · exact List.inj_on_of_nodup_map hs.keys hrow' hrow (hb.trans hagree.2.2.symm)
        subst hsame
        exact absurd hagree hdiff

/-- SHA-256 of the key that `oneEffect` uses. -/
def retryDigest (value : String) : String :=
  if value = "retry-key" then "86df9ac2413f27fc568266668e88b6efdca4b7f8f0f102189d0a74867a69c99d"
  else value

/-- An effect caused by the first event of a task. -/
def retried : BeginEffect where
  effectId := "effect-1"
  taskId := "task-1"
  causedBySeq := 1
  effectKind := "tool"
  effect := .null
  idempotencyKey := "retry-key"

/-- `oneEvent`, then the effect. -/
def oneEffect : List StoreCall := oneEvent ++ [.beginEffect 0 retried]

/-- The effect again, caused by another event. -/
def recaused : BeginEffect := { retried with causedBySeq := 7 }

theorem recaused_found :
    recaused.found (.inOrder retryDigest) (EngineStore.afterAll (.inOrder retryDigest) {} oneEffect)
      = some (retried.row 0 (idempotencyDigest (.inOrder retryDigest) "retry-key")) := by
  decide

theorem recaused_valid : recaused.Valid := by
  refine ⟨?_, ?_, ?_, ?_, ?_, ?_⟩ <;> decide

/-- The condition excludes inputs: the effect with another cause is one. -/
theorem recaused_not_honest :
    ¬ HonestBegin (.inOrder retryDigest)
      (EngineStore.afterAll (.inOrder retryDigest) {} oneEffect) 0 recaused := by
  intro h
  refine (effectIdentity_iff (.inOrder retryDigest) _ ⟨oneEffect, rfl⟩ 0 recaused).1 h ?_
  exact ⟨recaused_valid, _, recaused_found, ⟨rfl, rfl, rfl, rfl⟩, fun h => absurd h.2.1 (by decide)⟩

/-- The store accepts the effect with another cause as a replay. -/
theorem recaused_accepted :
    ¬ ∀ (P : Platform) (s : EngineStore), EngineStore.Reachable P s →
      ∀ (now : ℤ) (input : BeginEffect), HonestBegin P s now input := by
  intro h
  have hok : (exec (beginEffect (.inOrder retryDigest) 0 recaused)
      (EngineStore.afterAll (.inOrder retryDigest) {} oneEffect)).1 = .ok false := by decide
  obtain ⟨row, hrow, -, hseq, -⟩ := (h _ _ ⟨oneEffect, rfl⟩ 0 recaused).replay hok
  have hrows : ∀ row ∈ (EngineStore.afterAll (.inOrder retryDigest) {} oneEffect).effects,
      row.causedBySeq = 1 := by decide
  rw [hrows row hrow] at hseq
  exact absurd hseq (by decide)

end Astock
